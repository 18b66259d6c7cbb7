import Chip8.Instruction.Mnemonic
import Chip8.Timer

/-!
# Notices

What a machine and its console have to say while they work.  A notice records
what happened; its level and its wording are functions of it, so that a run can
be reasoned about without looking at text.
-/

set_option autoImplicit false

namespace Chip8

/-- How important a notice is, most important first. -/
inductive Level where
  | error
  | warn
  | info
  | debug
  | trace
  deriving DecidableEq, Repr

namespace Level

/-- The word in front of a notice. -/
def name : Level → String
  | .error => "ERROR"
  | .warn => "WARN"
  | .info => "INFO"
  | .debug => "DEBUG"
  | .trace => "TRACE"

/-- Levels counted from the most important one. -/
def rank : Level → Nat
  | .error => 0
  | .warn => 1
  | .info => 2
  | .debug => 3
  | .trace => 4

end Level

/-- Something worth telling. -/
inductive Notice where
  /-- A program of this size was loaded. -/
  | programLoaded (size : Nat)
  /-- The instruction found at this address is about to be executed. -/
  | executing (address : UInt16) (i : Instruction)
  /-- The machine is being shut down, for the first time. -/
  | shuttingDown
  /-- The interpreter ended because the machine was shut down. -/
  | shutDown
  /-- A timer begins to count down, at this rate. -/
  | timerStarted (t : Timer) (frequency : UInt32)
  /-- A timer does not count down any more. -/
  | timerStopped (t : Timer)
  /-- The sound timer was found above zero, and the tone begins. -/
  | toneOn
  /-- The sound timer was found at zero, and the tone ends. -/
  | toneOff
  /-- The tone began. -/
  | toneStarted
  /-- The tone ended. -/
  | toneStopped
  /-- A typed character means nothing. -/
  | inputIgnored (c : Char)
  /-- What is typed cannot be read, for this reason. -/
  | inputUnreadable (reason : String)
  /-- Nothing more will be typed. -/
  | inputEnded
  /-- The picture cannot be printed, for this reason. -/
  | pictureLost (reason : String)
  /-- A program is too large to be loaded whole. -/
  | programOversized (size capacity : Nat)
  /-- A program ends with half a word. -/
  | programOdd
  /-- The command failed while doing this. -/
  | failed (attempt : String)
  /-- A reason behind the failure told before. -/
  | causedBy (reason : String)
  /-- Where the failure was noticed, which is not recorded. -/
  | failureOrigin
  deriving DecidableEq

namespace Notice

/-- The level of a notice. -/
def level : Notice → Level
  | .failed _ => .error
  | .inputIgnored _ | .inputUnreadable _ | .pictureLost _ | .programOversized _ _
  | .programOdd => .warn
  | .programLoaded _ | .shutDown | .toneStarted | .causedBy _ => .info
  | .shuttingDown | .timerStarted _ _ | .timerStopped _ | .toneStopped | .inputEnded => .debug
  | .executing _ _ | .toneOn | .toneOff | .failureOrigin => .trace

/-- The wording of a notice. -/
def message : Notice → String
  | .programLoaded size => "loaded " ++ toString size ++ "-byte program"
  | .executing address i => Hex.text 3 address.toNat ++ ": " ++ i.mnemonic
  | .shuttingDown => "shutting down"
  | .shutDown => "interpreter was shut down"
  | .timerStarted t frequency => t.name ++ " started at " ++ toString frequency.toNat ++ " Hz"
  | .timerStopped t => t.name ++ " stopped"
  | .toneOn => "tone on"
  | .toneOff => "tone off"
  | .toneStarted => "beep"
  | .toneStopped => "beep stopped"
  | .inputIgnored c => "ignoring input '" ++ String.singleton c ++ "'"
  | .inputUnreadable reason => "could not read input: " ++ reason
  | .inputEnded => "end of input"
  | .pictureLost reason => "could not draw screen: " ++ reason
  | .programOversized size capacity =>
      "program is " ++ toString size ++ " bytes long; only the first " ++ toString capacity
        ++ " would be loaded"
  | .programOdd => "program has an odd length; ignoring the last byte"
  | .failed attempt => attempt
  | .causedBy reason => "caused by: " ++ reason
  | .failureOrigin => "backtrace: "

/-- A notice with its level in front. -/
def text (n : Notice) : String :=
  n.level.name ++ ": " ++ n.message

end Notice

/-- How much is told: warnings and errors always, and one level more for each
time that more was asked for. -/
structure Verbosity where
  /-- How often more was asked for. -/
  count : Nat
  deriving DecidableEq, Repr

/-- Whether notices of a level are told. -/
def Verbosity.shows (v : Verbosity) (l : Level) : Bool :=
  l.rank ≤ v.count + 1

end Chip8
