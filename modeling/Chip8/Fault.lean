import Chip8.Instruction.Decode
import Chip8.Memory

/-!
# Faults

The reasons for which a machine stops on its own.
-/

set_option autoImplicit false

namespace Chip8

/-- Why a machine stopped. -/
inductive Fault where
  /-- The word at the program counter is no instruction. -/
  | invalidWord (e : InvalidWord)
  /-- An instruction, or the fetch of one, reached outside memory. -/
  | address (e : AddressError)
  /-- A return without a call. -/
  | stackUnderflow
  /-- A call while the call stack is full. -/
  | stackOverflow
  deriving DecidableEq, Repr

namespace Fault

/-- What is said about a fault. -/
def message : Fault → String
  | .invalidWord e => e.message
  | .address e => e.message
  | .stackUnderflow => "no subroutine to return from"
  | .stackOverflow => "call stack overflow"

/-- A fault and the errors behind it, outermost first.  A fault that comes from
another error has the wording of that error. -/
def reasons (f : Fault) : List String :=
  match f with
  | .invalidWord e => [f.message, e.message]
  | .address e => [f.message, e.message]
  | .stackUnderflow | .stackOverflow => [f.message]

end Fault

end Chip8
