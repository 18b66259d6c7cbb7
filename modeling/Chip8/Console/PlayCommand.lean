import Chip8.Console.Arguments
import Chip8.Console.Host
import Chip8.Console.Number
import Chip8.Console.Session

/-!
# The playing command

Loads a program from a file and plays it.  The arguments are checked first, the
numbers among them in a fixed order, then the file is read, then the program is
loaded; the first of these that fails is what is reported.
-/

set_option autoImplicit false

namespace Chip8.Console

/-- What the playing command was asked to do, in the words of its arguments. -/
structure PlayCommand where
  /-- The pause after each draw, in milliseconds. -/
  drawDelay? : Option String
  /-- The tick rate of the timers. -/
  frequency? : Option String
  /-- Whether block transfers advance `I`. -/
  transfersAdvance : Bool
  /-- Whether shifts read their second register. -/
  shiftsReadSecond : Bool
  /-- Whether the screen is printed. -/
  showsScreen : Bool
  /-- Where the program comes from. -/
  source : String
  /-- How much is told. -/
  verbosity : Verbosity
  deriving DecidableEq, Repr

namespace PlayCommand

/-- The switches of the command. -/
def known : List Switch :=
  [⟨"draw-delay", none, .required, false⟩, ⟨"frequency", none, .required, false⟩,
    ⟨"load-quirks", some 'l', .absent, false⟩, ⟨"shift-quirks", some 'q', .absent, false⟩,
    ⟨"show", some 's', .absent, false⟩, ⟨"verbose", some 'v', .absent, true⟩]

/-- Reads the arguments of the command. -/
def parse (arguments : List String) : Except UsageError PlayCommand :=
  match Arguments.parse known arguments with
  | .error e => .error e
  | .ok a =>
    match a.operand? with
    | none => .error (.operandMissing "FILE")
    | some source =>
      .ok ⟨a.value? "draw-delay", a.value? "frequency", a.has "load-quirks",
        a.has "shift-quirks", a.has "show", source, ⟨a.count "verbose"⟩⟩

/-- The options of the machine. -/
def options (c : PlayCommand) : Except Failure Options :=
  match c.drawDelay? with
  | none => .ok ⟨Options.standard.drawDelay, c.transfersAdvance, c.shiftsReadSecond⟩
  | some text =>
    match Number.parse UInt64.size text with
    | .error e => .error ⟨"invalid draw-delay argument", [e.message]⟩
    | .ok delay => .ok ⟨delay, c.transfersAdvance, c.shiftsReadSecond⟩

/-- The tick rate of the timers. -/
def frequency (c : PlayCommand) : Except Failure UInt32 :=
  match c.frequency? with
  | none => .ok Frequency.standard
  | some text =>
    match Number.parse UInt32.size text with
    | .error e => .error ⟨"invalid frequency argument", [e.message]⟩
    | .ok f =>
      match Frequency.check (UInt32.ofNat f) with
      | .error e => .error ⟨"invalid frequency argument", [e.message]⟩
      | .ok f => .ok f

variable {m : Type → Type} {handle : Type}

/-- All bytes of a file. -/
def readFile [Monad m] (host : Host m handle) (name : String) :
    m (Except String (List UInt8)) := do
  match ← host.openFile name with
  | .error reason => return .error reason
  | .ok source => host.readAll source

/-- A session that is ready to begin, and the tick rate of its timers. -/
def prepare [Monad m] (host : Host m handle) (c : PlayCommand) (dice : Dice) :
    m (Except Failure (Session × UInt32)) := do
  match c.options with
  | .error f => return .error f
  | .ok options =>
    match c.frequency with
    | .error f => return .error f
    | .ok frequency =>
      match ← readFile host c.source with
      | .error reason =>
        return .error ⟨"could not open file '" ++ c.source ++ "'", [reason]⟩
      | .ok program =>
        match Cpu.initial.load program with
        | .error e =>
          return .error
            ⟨"could not load program from file '" ++ c.source ++ "'", [e.message]⟩
        | .ok (cpu, log) =>
          let simulation := Simulation.start options cpu .initial c.verbosity dice
          let started := [.timerStarted .delay frequency, .timerStarted .sound frequency]
          return .ok (.start (simulation.tell (log ++ started)) c.showsScreen, frequency)

end PlayCommand

end Chip8.Console
