import Chip8.Console.Host

/-!
# A disk

A small model of a file system, on which a command can be run without a real
one.  A path is the list of the names that lead to a place from the top; a
directory is the top, the working directory and all that it lies in, and
whatever else something lies in.  What lies on a disk besides the files of its
user is said in `Chip8.Console.Disk.Furniture`.

A name is followed part by part, from the top if it begins with a slash and
from the working directory otherwise.  All parts but the last have to lead to
directories, and so does the last if a slash follows it; what else it may lead
to depends on what is asked for.  A link that is met on the way stands for the
place that it points to, also for two dots that come after it.

Opening a file only finds its place: its bytes are looked up when they are
read, so what is done to the file in between is seen.  Opened files have numbers,
and under its number a file can be opened once more.

Different paths are different files; a second name of a file is a link to its path.
The standard streams are none of the files: what is in the input stays there
whatever is done to the files.
-/

set_option autoImplicit false

namespace Chip8.Console

/-! ## What can go wrong -/

/-- Why a disk refuses an action. -/
inductive DiskError where
  /-- There is nothing of this name. -/
  | missing
  /-- The device of this name is not there. -/
  | noDevice
  /-- The file cannot be used in this way. -/
  | badHandle
  /-- What is read has no end. -/
  | endless
  /-- Part of the name is a file where a directory is needed. -/
  | notDirectory
  /-- The name is that of a directory. -/
  | isDirectory
  /-- The file is a program that is running. -/
  | busy
  /-- There is no room to write. -/
  | noRoom
  /-- The name, or a part of it, is too long. -/
  | nameTooLong
  deriving DecidableEq, Repr

/-- The number that systems give to a refusal. -/
def DiskError.number : DiskError → Nat
  | .missing => 2
  | .noDevice => 6
  | .badHandle => 9
  | .endless => 12
  | .notDirectory => 20
  | .isDirectory => 21
  | .busy => 26
  | .noRoom => 28
  | .nameTooLong => 36

/-- The words for a refusal. -/
def DiskError.words : DiskError → String
  | .missing => "No such file or directory"
  | .noDevice => "No such device or address"
  | .badHandle => "Bad file descriptor"
  | .endless => "Cannot allocate memory"
  | .notDirectory => "Not a directory"
  | .isDirectory => "Is a directory"
  | .busy => "Text file busy"
  | .noRoom => "No space left on device"
  | .nameTooLong => "File name too long"

/-- What is said about a refused action. -/
def DiskError.message (e : DiskError) : String :=
  e.words ++ " (os error " ++ toString e.number ++ ")"

/-! ## Names -/

/-- A name, taken apart. -/
structure Route where
  /-- Whether it begins at the top. -/
  absolute : Bool
  /-- What stands between its slashes. -/
  parts : List String
  /-- Whether a slash follows the last part. -/
  slashed : Bool
  deriving DecidableEq, Repr

namespace Route

/-- The characters between the slashes of a name; there is one more of these
segments than there are slashes. -/
def segments : List Char → List (List Char)
  | [] => [[]]
  | '/' :: cs => [] :: segments cs
  | c :: cs =>
    match segments cs with
    | [] => [[c]]
    | s :: ss => (c :: s) :: ss

/-- Takes a name apart.  Several slashes count as one. -/
def ofName (name : String) : Route :=
  let segments := segments name.toList
  ⟨name.toList.head? == some '/', (segments.filter fun s => !s.isEmpty).map String.ofList,
    segments.getLast?.elim false List.isEmpty⟩

/-- The longest part, in bytes. -/
abbrev partCapacity : Nat := 255

/-- The longest name, in bytes. -/
abbrev nameCapacity : Nat := 4095

end Route

/-! ## What lies on a disk -/

/-- Files that are no store of bytes. -/
inductive Device where
  /-- It holds the same bytes at all times.  What is written is gone, or refused with
  an error. -/
  | constant (bytes : List UInt8) (refusal : Option DiskError)
  /-- It cannot be read, with the error that says so.  What is written is gone, or
  refused with an error. -/
  | unreadable (reason : DiskError) (refusal : Option DiskError)
  /-- Standard input. -/
  | input
  /-- Standard output. -/
  | output
  /-- The output for errors. -/
  | errors
  deriving DecidableEq, Repr

/-- What can lie at a path. -/
inductive Entry where
  /-- A directory. -/
  | directory
  /-- A directory in which no file can be made, with the error that says so.  There
  is no limit to the names that can be looked up in it. -/
  | sealedDirectory (refusal : DiskError)
  /-- A file that holds these bytes. -/
  | file (bytes : List UInt8)
  /-- A device. -/
  | device (d : Device)
  /-- A device that cannot be made anew, with the error that says so. -/
  | keptDevice (d : Device) (refusal : DiskError)
  /-- A device that cannot be opened at all, with the error that says so. -/
  | shutDevice (refusal : DiskError)
  /-- A link to what lies at another path, which is not a link itself. -/
  | link (target : List String)
  deriving DecidableEq, Repr

/-- What lies at each path, and the standard streams. -/
structure Disk where
  /-- What lies where. -/
  entries : List (List String × Entry)
  /-- The working directory. -/
  home : List String
  /-- The paths of the files that were opened, in this order. -/
  opened : List (List String)
  /-- What has not been read yet from standard input. -/
  input : List UInt8
  /-- What was written to standard output. -/
  output : String
  /-- What was written to the output for errors. -/
  errors : String
  deriving DecidableEq

/-- An open file of a disk. -/
inductive Place where
  /-- A directory. -/
  | directory
  /-- A file, by its path. -/
  | file (path : List String)
  /-- A device. -/
  | device (d : Device)
  deriving DecidableEq, Repr

namespace Disk

/-- What lies at a path. -/
def lookup (d : Disk) (path : List String) : Option Entry :=
  d.entries.lookup path

/-- The bytes of the file at a path. -/
def file? (d : Disk) (path : List String) : Option (List UInt8) :=
  match d.lookup path with
  | some (.file bytes) => some bytes
  | _ => none

/-- The error with which a directory refuses new files, if it does. -/
def refusal? (d : Disk) (path : List String) : Option DiskError :=
  match d.lookup path with
  | some (.sealedDirectory e) => some e
  | _ => none

/-- Whether a path is that of a directory. -/
def isDirectory (d : Disk) (path : List String) : Bool :=
  path.isPrefixOf d.home || d.lookup path == some .directory || (d.refusal? path).isSome ||
    d.entries.any fun e => path.isPrefixOf e.1 && path != e.1

/-! ## Opened files -/

/-- The directory of the opened files, where each is named by its number. -/
def numbers : List String :=
  ["proc", "self", "fd"]

/-- The number of the first file that is opened; those below are the standard
streams. -/
abbrev firstNumber : Nat := 3

/-- A file is opened and gets the next number. -/
def register (d : Disk) (path : List String) : Disk :=
  { d with opened := d.opened ++ [path] }

/-- The path of the opened file whose number a path names. -/
def openedAt? (d : Disk) (path : List String) : Option (List String) :=
  (d.opened.zipIdx firstNumber).findSome? fun o =>
    if path = numbers ++ [toString o.2] then some o.1 else none

/-! ## Following names -/

/-- The path to which a part of a name leads from a directory.  A dot stays in
the directory, two dots leave it, and the top is left for itself. -/
def pathFrom (here : List String) (part : String) : List String :=
  if part = "." then here
  else if part = ".." then here.dropLast
  else here ++ [part]

/-- The path that a link at a path, or the number of an opened file, points to; and
the path itself if there is neither. -/
def follow (d : Disk) (path : List String) : List String :=
  match d.openedAt? path with
  | some target => target
  | none =>
    match d.lookup path with
    | some (.link target) => target
    | _ => path

/-- Whether a directory cannot be asked for a name because it is too long. -/
def isTooLong (d : Disk) (here : List String) (part : String) : Bool :=
  Route.partCapacity < part.utf8ByteSize && (d.refusal? here).isNone

/-- Follows the parts of a name through directories only. -/
def walk (d : Disk) (here : List String) : List String → Except DiskError (List String)
  | [] => .ok here
  | part :: rest =>
    let there := d.follow (pathFrom here part)
    if d.isTooLong here part then .error .nameTooLong
    else if d.isDirectory there then d.walk there rest
    else if (d.lookup there).isSome then .error .notDirectory
    else .error .missing

/-- Where a name leads by all of its parts but the last. -/
inductive Target where
  /-- To a directory: there is no last part, or it is one or two dots. -/
  | directory (path : List String)
  /-- To a name in a directory, with a slash behind it or not. -/
  | name (here : List String) (part : String) (slashed : Bool)
  deriving DecidableEq, Repr

/-- Follows a name up to its last part. -/
def find (d : Disk) (name : String) : Except DiskError Target :=
  let route := Route.ofName name
  if name = "" then .error .missing
  else if Route.nameCapacity < name.utf8ByteSize then .error .nameTooLong
  else
    match d.walk (if route.absolute then [] else d.home) route.parts.dropLast with
    | .error e => .error e
    | .ok here =>
      match route.parts.getLast? with
      | none => .ok (.directory here)
      | some part =>
        if part = "." ∨ part = ".." then .ok (.directory (pathFrom here part))
        else .ok (.name here part route.slashed)

/-! ## Actions -/

/-- The opened file with what lies at a path. -/
def place (path : List String) : Entry → Place
  | .device d | .keptDevice d _ => .device d
  | _ => .file path

/-- Opens a file that is there.  A directory can be opened, but not read. -/
def openFile (d : Disk) (name : String) : Except DiskError (Place × Disk) :=
  match d.find name with
  | .error e => .error e
  | .ok (.directory path) => .ok (.directory, d.register path)
  | .ok (.name here part slashed) =>
    let path := d.follow (here ++ [part])
    if d.isTooLong here part then .error .nameTooLong
    else if d.isDirectory path then .ok (.directory, d.register path)
    else
      match d.lookup path with
      | none => .error .missing
      | some entry =>
        if slashed then .error .notDirectory
        else
          match entry with
          | .shutDevice e => .error e
          | _ => .ok (place path entry, d.register path)

/-- The disk with a file holding exactly these bytes. -/
def put (d : Disk) (path : List String) (bytes : List UInt8) : Disk :=
  { d with entries := (path, .file bytes) :: d.entries.filter fun e => e.1 != path }

/-- Makes a file, empty, in place of any that was there.  A device stays what it
is.  A name that has to be that of a directory is refused as one, whatever is
there. -/
def createFile (d : Disk) (name : String) : Except DiskError (Place × Disk) :=
  match d.find name with
  | .error e => .error e
  | .ok (.directory _) | .ok (.name _ _ true) => .error .isDirectory
  | .ok (.name here part false) =>
    let path := d.follow (here ++ [part])
    if d.isTooLong here part then .error .nameTooLong
    else if d.isDirectory path then .error .isDirectory
    else
      match d.lookup path, d.refusal? here with
      | some (.device device), _ => .ok (.device device, d.register path)
      | some (.keptDevice _ e), _ | some (.shutDevice e), _ | none, some e => .error e
      | _, _ => .ok (.file path, (d.put path []).register path)

/-- Reads all that a file holds. -/
def readAll (d : Disk) : Place → Except DiskError (List UInt8 × Disk)
  | .directory => .error .isDirectory
  | .file path => .ok ((d.file? path).getD [], d)
  | .device (.constant bytes _) => .ok (bytes, d)
  | .device (.unreadable reason _) => .error reason
  | .device .input => .ok (d.input, { d with input := [] })
  | .device .output | .device .errors => .error .badHandle

/-- Writes a text at the end of a file.  Where writing is refused, nothing can still
be written.  What is written to standard input is read by nobody. -/
def write (d : Disk) (text : String) : Place → Except DiskError Disk
  | .directory => .error .badHandle
  | .file path => .ok (d.put path ((d.file? path).getD [] ++ text.toUTF8.data.toList))
  | .device (.constant _ refusal) | .device (.unreadable _ refusal) =>
    match refusal with
    | some e => if text = "" then .ok d else .error e
    | none => .ok d
  | .device .input => .ok d
  | .device .output => .ok { d with output := d.output ++ text }
  | .device .errors => .ok { d with errors := d.errors ++ text }

/-- What lies at a path after a file was put there, or at another path. -/
theorem lookup_put (d : Disk) (path other : List String) (bytes : List UInt8) :
    (d.put path bytes).lookup other =
      if other = path then some (.file bytes) else d.lookup other := by
  unfold put lookup
  rw [List.lookup_cons]
  by_cases h : other = path
  · simp [h]
  · have hne : (other == path) = false := by simpa using h
    simp only [hne, h, if_false]
    induction d.entries with
    | nil => rfl
    | cons e es ih =>
        obtain ⟨key, value⟩ := e
        by_cases hk : key = path
        · simp [hk, ih, List.lookup_cons, hne]
        · simp [hk, List.lookup_cons, ih]

/-- The file at a path after a file was put there, or at another path. -/
theorem file?_put (d : Disk) (path other : List String) (bytes : List UInt8) :
    (d.put path bytes).file? other = if other = path then some bytes else d.file? other := by
  unfold file?
  rw [lookup_put]
  by_cases h : other = path <;> simp [h]

/-- The bytes of the file that a name leads to. -/
def contents? (d : Disk) (name : String) : Option (List UInt8) :=
  match d.openFile name with
  | .ok (.file path, _) => d.file? path
  | .ok (.device (.constant bytes _), _) => some bytes
  | _ => none

/-! ## A disk as a host -/

/-- Each action acts on the disk as it is at that moment. -/
def host : Host (StateM Disk) Place where
  openFile name := fun d =>
    match d.openFile name with
    | .error e => (.error e.message, d)
    | .ok (place, d') => (.ok place, d')
  createFile name := fun d =>
    match d.createFile name with
    | .error e => (.error e.message, d)
    | .ok (place, d') => (.ok place, d')
  readAll place := fun d =>
    match d.readAll place with
    | .error e => (.error e.message, d)
    | .ok (bytes, d') => (.ok bytes, d')
  write place text := fun d =>
    match d.write text place with
    | .error e => (.error e.message, d)
    | .ok d' => (.ok (), d')
  standardInput := .device .input
  standardOutput := .device .output

end Disk

end Chip8.Console
