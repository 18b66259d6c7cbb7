/-!
# Command-line arguments

A command has switches and one operand.  A switch has a long name (`--name`)
and may have a one-letter name (`-n`).  One that takes a value takes it from the
same argument (`--name=value`, `-nvalue`, `-n=value`) or from the next one,
unless that one is a switch itself or `--`; then the switch goes without, if it
can.  One-letter switches can be written together, a lone `-` is an operand, and
after `--` everything is.
-/

set_option autoImplicit false

namespace Chip8.Console

/-- Whether a switch takes a value. -/
inductive ValueRule where
  /-- It takes none. -/
  | absent
  /-- It takes one and can go without. -/
  | optional
  /-- It cannot go without one. -/
  | required
  deriving DecidableEq, Repr

/-- A switch that a command knows. -/
structure Switch where
  /-- The name after two dashes. -/
  name : String
  /-- The letter after one dash. -/
  letter : Option Char
  /-- Whether a value belongs to it. -/
  value : ValueRule
  /-- Whether it may be given more than once. -/
  repeatable : Bool
  deriving DecidableEq, Repr

/-- Why an argument list cannot be understood. -/
inductive UsageError where
  /-- No switch has this name. -/
  | unknown (argument : String)
  /-- A switch lacks its value. -/
  | valueMissing (name : String)
  /-- A switch is given too often. -/
  | repeated (name : String)
  /-- There is one operand too many. -/
  | surplus (operand : String)
  /-- The operand is missing. -/
  | operandMissing (name : String)
  deriving DecidableEq, Repr

/-- What is said about arguments that cannot be understood. -/
def UsageError.message : UsageError → String
  | .unknown a => "error: found argument '" ++ a ++ "' which was not expected"
  | .valueMissing n => "error: the argument '--" ++ n ++ "' requires a value"
  | .repeated n => "error: the argument '--" ++ n ++ "' cannot be used multiple times"
  | .surplus a => "error: found argument '" ++ a ++ "' which was not expected"
  | .operandMissing n => "error: the argument '<" ++ n ++ ">' was not provided"

/-- An argument list, understood. -/
structure Arguments where
  /-- The switches that were given, in order, with the values they were given. -/
  given : List (String × Option String)
  /-- The operand. -/
  operand? : Option String
  deriving DecidableEq, Repr

namespace Arguments

/-- Nothing given yet. -/
def none : Arguments := ⟨[], Option.none⟩

/-- How often a switch was given. -/
def count (a : Arguments) (name : String) : Nat :=
  a.given.countP fun g => g.1 == name

/-- Whether a switch was given. -/
def has (a : Arguments) (name : String) : Bool :=
  a.given.any fun g => g.1 == name

/-- The value that a switch was given. -/
def value? (a : Arguments) (name : String) : Option String :=
  (a.given.find? fun g => g.1 == name).bind (·.2)

/-! ## Reading arguments -/

/-- The characters of a value after its equals signs. -/
def afterEquals (cs : List Char) : String :=
  String.ofList (cs.dropWhile (· == '='))

/-- One argument by itself. -/
inductive Item where
  /-- The end of the switches. -/
  | terminator
  /-- An operand. -/
  | operand (text : String)
  /-- Switches without values, then perhaps one that takes a value, with the
  value if it is in the same argument. -/
  | switches (plain : List Switch) (last : Option (Switch × Option String))

/-- Reads the letters of an argument with one dash. -/
def letters (known : List Switch) (argument : String) :
    List Char → Except UsageError (List Switch × Option (Switch × Option String))
  | [] => .ok ([], Option.none)
  | c :: cs =>
    match known.find? fun s => s.letter == some c with
    | Option.none => .error (.unknown argument)
    | some s =>
      if s.value = .absent then
        match letters known argument cs with
        | .error e => .error e
        | .ok (plain, last) => .ok (s :: plain, last)
      else
        .ok ([], some (s, if cs.isEmpty then Option.none else some (afterEquals cs)))

/-- Reads one argument. -/
def item (known : List Switch) (argument : String) : Except UsageError Item :=
  match argument.toList with
  | ['-', '-'] => .ok .terminator
  | '-' :: '-' :: cs =>
    let body := cs.dropWhile (· == '-')
    let name := String.ofList (body.takeWhile (· != '='))
    let value := body.dropWhile (· != '=')
    match known.find? fun s => s.name == name with
    | Option.none => .error (.unknown argument)
    | some s =>
      if s.value = .absent then
        .ok (.switches [s] Option.none)
      else
        .ok (.switches [] (some (s, if value.isEmpty then Option.none else some (afterEquals value))))
  | '-' :: c :: cs =>
    match letters known argument (c :: cs) with
    | .error e => .error e
    | .ok (plain, last) => .ok (.switches plain last)
  | _ => .ok (.operand argument)

/-- Whether an argument can be the value of the switch before it. -/
def isValue (argument : String) : Bool :=
  match argument.toList with
  | '-' :: _ :: _ => false
  | _ => true

/-- Records a switch and its value, if it has one. -/
def record (a : Arguments) (s : Switch) (value : Option String) : Except UsageError Arguments :=
  if !s.repeatable && a.has s.name then
    .error (.repeated s.name)
  else
    .ok { a with given := a.given ++ [(s.name, value)] }

/-- Records a switch that goes without its value. -/
def recordBare (a : Arguments) (s : Switch) : Except UsageError Arguments :=
  if s.value = .required then .error (.valueMissing s.name) else a.record s Option.none

/-- Records switches that take no value. -/
def recordAll (a : Arguments) : List Switch → Except UsageError Arguments
  | [] => .ok a
  | s :: ss =>
    match a.record s Option.none with
    | .error e => .error e
    | .ok a' => a'.recordAll ss

/-- Records the operand. -/
def recordOperand (a : Arguments) (text : String) : Except UsageError Arguments :=
  match a.operand? with
  | Option.none => .ok { a with operand? := some text }
  | some _ => .error (.surplus text)

/-- Reads arguments of which all are operands. -/
def parseOperands (a : Arguments) : List String → Except UsageError Arguments
  | [] => .ok a
  | text :: rest =>
    match a.recordOperand text with
    | .error e => .error e
    | .ok a' => a'.parseOperands rest

/-- Reads arguments, with what was understood so far. -/
def parseFrom (known : List Switch) (a : Arguments) : List String → Except UsageError Arguments
  | [] => .ok a
  | argument :: rest =>
    match item known argument with
    | .error e => .error e
    | .ok .terminator => a.parseOperands rest
    | .ok (.operand text) =>
      match a.recordOperand text with
      | .error e => .error e
      | .ok a' => parseFrom known a' rest
    | .ok (.switches plain last) =>
      match a.recordAll plain, last with
      | .error e, _ => .error e
      | .ok a', Option.none => parseFrom known a' rest
      | .ok a', some (s, some value) =>
        match a'.record s (some value) with
        | .error e => .error e
        | .ok a'' => parseFrom known a'' rest
      | .ok a', some (s, Option.none) =>
        match rest with
        | [] => a'.recordBare s
        | value :: rest' =>
          if isValue value then
            match a'.record s (some value) with
            | .error e => .error e
            | .ok a'' => parseFrom known a'' rest'
          else
            match a'.recordBare s with
            | .error e => .error e
            | .ok a'' => parseFrom known a'' (value :: rest')

/-- Reads a whole argument list. -/
def parse (known : List Switch) (arguments : List String) : Except UsageError Arguments :=
  parseFrom known .none arguments

end Arguments

end Chip8.Console
