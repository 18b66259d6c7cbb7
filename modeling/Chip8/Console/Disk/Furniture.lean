import Chip8.Console.Disk

/-!
# What every disk has

A disk holds more than the files of its user.  There are the devices, and there are
other names for what a command has at hand: for its standard streams, for the files
that it has opened, and for its working directory.  So two different names can lead to
one file.
-/

set_option autoImplicit false

namespace Chip8.Console

namespace Disk

/-! ## Devices -/

/-- It is empty, and what is written to it is gone. -/
def null : Device := .constant [] none

/-- It never ends, and what is written to it is gone. -/
def source : Device := .unreadable .endless none

/-- It never ends, and there is no room in it. -/
def full : Device := .unreadable .endless (some .noRoom)

/-- The devices, by their names. -/
def devices : List (String × Entry) :=
  [("null", .device null), ("zero", .device source), ("random", .device source),
    ("urandom", .device source), ("full", .device full), ("stdin", .device .input),
    ("stdout", .device .output), ("stderr", .device .errors), ("tty", .shutDevice .noDevice)]

/-- The standard streams, by their numbers. -/
def streams : List (String × Device) :=
  [("0", .input), ("1", .output), ("2", .errors)]

/-! ## The running program -/

/-- The directory in which a program finds what there is to know about itself. -/
def programDirectory : List String := ["proc", "self"]

/-- A directory of a system that keeps it to itself: nothing can be added. -/
def kept : Entry := .sealedDirectory .missing

/-- What a program of a certain name, with this working directory, finds about itself. -/
def programEntries (name : String) (home : List String) : List (List String × Entry) :=
  [(programDirectory, kept), (numbers, kept), (programDirectory ++ ["task"], kept),
    (programDirectory ++ ["cwd"], .link home),
    (programDirectory ++ ["comm"], .device (.constant (name ++ "\n").toUTF8.data.toList none)),
    (programDirectory ++ ["exe"], .keptDevice null .busy)] ++
    streams.map fun s => (numbers ++ [s.1], .device s.2)

/-- What lies on every disk, for a program of a certain name and its working
directory. -/
def furniture (name : String) (home : List String) : List (List String × Entry) :=
  devices.map (fun d => (["dev", d.1], d.2)) ++ [(["dev", "fd"], .link numbers), (["proc"], kept)] ++
    programEntries name home

/-- The path of the working directory.  No name can lead to it from above: its
last part has a slash in it, which the parts of names do not have. -/
def workplace : List String :=
  ["tmp", "/"]

/-- The disk of a program of a certain name, whose working directory holds these
files and nothing else. -/
def ofFiles (name : String) (files : List (String × List UInt8)) (input : List UInt8) : Disk :=
  ⟨files.map (fun f => (workplace ++ [f.1], .file f.2)) ++ furniture name workplace, workplace,
    [], input, "", ""⟩

end Disk

end Chip8.Console
