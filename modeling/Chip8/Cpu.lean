import Chip8.Fault
import Chip8.Notice

/-!
# The processor

What belongs to one processor alone: its memory, its registers, the address
register `I`, the program counter and the call stack.
-/

set_option autoImplicit false

namespace Chip8

/-- The state of a processor. -/
structure Cpu where
  /-- The memory that programs run in. -/
  memory : Memory
  /-- The registers `V0` to `VF`. -/
  registers : Vector UInt8 16
  /-- The address register `I`. -/
  index : UInt16
  /-- The address of the next instruction. -/
  pc : UInt16
  /-- The addresses that calls return to, latest first. -/
  stack : List UInt16
  deriving DecidableEq

namespace Cpu

/-- The number of calls that may be open at a time. -/
abbrev stackDepth : Nat := 16

/-- Before a program is loaded: registers at zero, ready to start at the
address at which programs start. -/
def initial : Cpu :=
  ⟨.initial, Vector.replicate 16 0, 0, UInt16.ofNat Memory.programStart, []⟩

instance : Inhabited Cpu := ⟨initial⟩

/-! ## Registers -/

/-- The value of a register. -/
@[inline] def reg (c : Cpu) (x : Register) : UInt8 :=
  c.registers[x]

/-- The processor with a register set to a value. -/
@[inline] def setReg (c : Cpu) (x : Register) (v : UInt8) : Cpu :=
  { c with registers := c.registers.set x v }

/-- A register reads as what it was set to, and the others are as before. -/
theorem reg_setReg (c : Cpu) (x y : Register) (v : UInt8) :
    (c.setReg x v).reg y = if x = y then v else c.reg y := by
  unfold reg setReg
  by_cases h : x = y
  · subst h
    simp
  · have hne : x.val ≠ y.val := fun hv => h (Fin.ext hv)
    simp [h, hne]

/-! ## Programs -/

/-- Loads a program, and tells its size. -/
def load (c : Cpu) (program : List UInt8) :
    Except Memory.ProgramTooLarge (Cpu × List Notice) :=
  match c.memory.load program with
  | .ok memory => .ok ({ c with memory }, [.programLoaded program.length])
  | .error e => .error e

/-- The word at the program counter. -/
def fetch (c : Cpu) : Except AddressError UInt16 :=
  c.memory.word c.pc.toUInt64

/-- The instruction at the program counter. -/
def current (c : Cpu) : Except Fault Instruction :=
  match c.fetch with
  | .error e => .error (.address e)
  | .ok w =>
    match Instruction.ofWord w with
    | .error e => .error (.invalidWord e)
    | .ok i => .ok i

/-! ## The program counter -/

/-- The processor past one more instruction. -/
@[inline] def advance (c : Cpu) : Cpu :=
  { c with pc := c.pc + 2 }

/-- The processor past one more instruction if the condition holds. -/
@[inline] def skipIf (c : Cpu) (condition : Bool) : Cpu :=
  if condition then c.advance else c

/-- A skip does not touch the registers. -/
@[simp] theorem reg_skipIf (c : Cpu) (b : Bool) (x : Register) :
    (c.skipIf b).reg x = c.reg x := by
  unfold skipIf
  split <;> rfl

end Cpu

end Chip8
