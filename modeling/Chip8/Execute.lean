import Chip8.Cpu
import Chip8.Devices
import Chip8.Options
import Chip8.Screen.Sprite

/-!
# Executing instructions

`execute` says what one instruction does to a processor and its devices, and
`step` fetches, decodes and executes the instruction at the program counter.
Both are pure: the byte that a random number is taken from is an argument, and
an instruction that has to wait for a key is reported as blocked.

An instruction ends in one of three ways (`Outcome`), and the state it leaves is
given for each of them, also for a fault.  What an instruction may touch of the
devices is one thing only: the screen, one timer, or the pending keys.
-/

set_option autoImplicit false

namespace Chip8

/-- How an instruction ends. -/
inductive Outcome where
  /-- It was carried out. -/
  | done
  /-- It could not be carried out. -/
  | fault (f : Fault)
  /-- It waits for a key that is meant for this register. -/
  | blocked (x : Register)
  deriving DecidableEq, Repr

/-- What an instruction leaves behind. -/
structure Effect where
  /-- How it ended. -/
  outcome : Outcome
  /-- The processor afterwards. -/
  cpu : Cpu
  /-- The devices afterwards. -/
  devices : Devices
  deriving DecidableEq

namespace Cpu

/-! ## Arithmetic -/

/-- Sets a register and then the flag, so that the flag wins if it is that register. -/
def setWithFlag (c : Cpu) (x : Register) (v flag : UInt8) : Cpu :=
  (c.setReg x v).setReg .flag flag

/-- Adds `y` to `x`; the flag is the carry. -/
def add (c : Cpu) (x y : Register) : Cpu :=
  let a := c.reg x
  let b := c.reg y
  c.setWithFlag x (a + b) (decide (255 < a.toNat + b.toNat)).toUInt8

/-- Sets `x` to `a - b`; the flag is set if nothing was borrowed. -/
def setDifference (c : Cpu) (x : Register) (a b : UInt8) : Cpu :=
  c.setWithFlag x (a - b) (decide (b ≤ a)).toUInt8

/-- The value that a shift starts from. -/
def shiftSource (o : Options) (c : Cpu) (x y : Register) : UInt8 :=
  if o.shiftsReadSecond then c.reg y else c.reg x

/-- Shifts right by one bit; the flag is the bit shifted out. -/
def shiftRight (o : Options) (c : Cpu) (x y : Register) : Cpu :=
  let s := c.shiftSource o x y
  c.setWithFlag x (s >>> 1) (s &&& 1)

/-- Shifts left by one bit; the flag is the bit shifted out. -/
def shiftLeft (o : Options) (c : Cpu) (x y : Register) : Cpu :=
  let s := c.shiftSource o x y
  c.setWithFlag x (s <<< 1) (s >>> 7)

/-- Where `I` stands after a block of `count` bytes was moved. -/
def afterTransfer (o : Options) (c : Cpu) (count : Nat) : Cpu :=
  if o.transfersAdvance then { c with index := c.index + UInt16.ofNat count } else c

/-- The number of registers up to `x`. -/
def blockSize (x : Register) : Nat :=
  x.val + 1

/-! ## Memory -/

/-- The decimal digits of a byte, hundreds first. -/
def decimalDigits (v : UInt8) : List UInt8 :=
  [v / 100, v / 10 % 10, v % 10]

/-- Writes a block at `I`. -/
def writeBlock (c : Cpu) (data : List UInt8) : Except Fault Cpu :=
  match c.memory.write c.index.toUInt64 data with
  | .error e => .error (.address e)
  | .ok memory => .ok { c with memory }

/-- Reads a block at `I`. -/
def readBlock (c : Cpu) (count : Nat) : Except Fault (List UInt8) :=
  match c.memory.read c.index.toUInt64 (UInt64.ofNat count) with
  | .error e => .error (.address e)
  | .ok data => .ok data

end Cpu

/-! ## Instructions -/

/-- What an instruction does, with the program counter already past it.  `byte`
is what a random number is taken from. -/
def execute (o : Options) (byte : UInt8) (i : Instruction) (cpu : Cpu) (dev : Devices) : Effect :=
  match i with
  | .clear => ⟨.done, cpu, { dev with screen := dev.screen.clear }⟩
  | .ret =>
    match cpu.stack with
    | [] => ⟨.fault .stackUnderflow, cpu, dev⟩
    | a :: rest => ⟨.done, { cpu with pc := a, stack := rest }, dev⟩
  | .jump a => ⟨.done, { cpu with pc := a }, dev⟩
  | .call a =>
    if cpu.stack.length = Cpu.stackDepth then
      ⟨.fault .stackOverflow, cpu, dev⟩
    else
      ⟨.done, { cpu with pc := a, stack := cpu.pc :: cpu.stack }, dev⟩
  | .skipEqByte x b => ⟨.done, cpu.skipIf (cpu.reg x == b), dev⟩
  | .skipNeByte x b => ⟨.done, cpu.skipIf (cpu.reg x != b), dev⟩
  | .skipEq x y => ⟨.done, cpu.skipIf (cpu.reg x == cpu.reg y), dev⟩
  | .skipNe x y => ⟨.done, cpu.skipIf (cpu.reg x != cpu.reg y), dev⟩
  | .setByte x b => ⟨.done, cpu.setReg x b, dev⟩
  | .addByte x b => ⟨.done, cpu.setReg x (cpu.reg x + b), dev⟩
  | .copy x y => ⟨.done, cpu.setReg x (cpu.reg y), dev⟩
  | .or x y => ⟨.done, cpu.setReg x (cpu.reg x ||| cpu.reg y), dev⟩
  | .and x y => ⟨.done, cpu.setReg x (cpu.reg x &&& cpu.reg y), dev⟩
  | .xor x y => ⟨.done, cpu.setReg x (cpu.reg x ^^^ cpu.reg y), dev⟩
  | .add x y => ⟨.done, cpu.add x y, dev⟩
  | .sub x y => ⟨.done, cpu.setDifference x (cpu.reg x) (cpu.reg y), dev⟩
  | .subFrom x y => ⟨.done, cpu.setDifference x (cpu.reg y) (cpu.reg x), dev⟩
  | .shiftRight x y => ⟨.done, cpu.shiftRight o x y, dev⟩
  | .shiftLeft x y => ⟨.done, cpu.shiftLeft o x y, dev⟩
  | .setIndex a => ⟨.done, { cpu with index := a }, dev⟩
  | .jumpOffset a => ⟨.done, { cpu with pc := a + (cpu.reg .offset).toUInt16 }, dev⟩
  | .random x m => ⟨.done, cpu.setReg x (byte &&& m), dev⟩
  | .draw x y rows =>
    match cpu.readBlock rows.toNat with
    | .error f => ⟨.fault f, cpu, dev⟩
    | .ok sprite =>
      let (screen, collided) := dev.screen.draw sprite (cpu.reg x).toUInt64 (cpu.reg y).toUInt64
      ⟨.done, cpu.setReg .flag collided.toUInt8, { dev with screen }⟩
  | .skipKey x =>
    let (taken, keys) := dev.keys.popIf (cpu.reg x)
    ⟨.done, cpu.skipIf taken, { dev with keys }⟩
  | .skipNotKey x =>
    ⟨.done, cpu.skipIf (dev.keys.front?.map Key.code != some (cpu.reg x)), dev⟩
  | .getDelay x => ⟨.done, cpu.setReg x dev.delay.value, dev⟩
  | .waitKey x =>
    match dev.keys.waitPop with
    | (.key k, keys) => ⟨.done, cpu.setReg x k.code, { dev with keys }⟩
    -- The run is over: the instruction is left unexecuted.
    | (.closed, _) => ⟨.done, { cpu with pc := cpu.pc - 2 }, dev⟩
    | (.pending, _) => ⟨.blocked x, cpu, dev⟩
  | .setDelay x => ⟨.done, cpu, { dev with delay := ⟨cpu.reg x⟩ }⟩
  | .setSound x => ⟨.done, cpu, { dev with sound := ⟨cpu.reg x⟩ }⟩
  | .addIndex x => ⟨.done, { cpu with index := cpu.index + (cpu.reg x).toUInt16 }, dev⟩
  | .glyph x => ⟨.done, { cpu with index := Font.address (cpu.reg x) }, dev⟩
  | .storeDigits x =>
    match cpu.writeBlock (Cpu.decimalDigits (cpu.reg x)) with
    | .error f => ⟨.fault f, cpu, dev⟩
    | .ok cpu' => ⟨.done, cpu', dev⟩
  | .storeRegisters x =>
    match cpu.writeBlock (cpu.registers.toList.take (Cpu.blockSize x)) with
    | .error f => ⟨.fault f, cpu, dev⟩
    | .ok cpu' => ⟨.done, cpu'.afterTransfer o (Cpu.blockSize x), dev⟩
  | .loadRegisters x =>
    match cpu.readBlock (Cpu.blockSize x) with
    | .error f => ⟨.fault f, cpu, dev⟩
    | .ok data =>
      let loaded := { cpu with registers := overlay cpu.registers 0 data }
      ⟨.done, loaded.afterTransfer o (Cpu.blockSize x), dev⟩

/-! ## Steps -/

/-- The effect of a step, and what it tells. -/
structure Step where
  /-- What the step leaves behind. -/
  effect : Effect
  /-- The instruction, if one was found to execute. -/
  log : List Notice

/-- Fetches, decodes and executes the instruction at the program counter.  The
counter moves on as soon as the word is fetched. -/
def step (o : Options) (byte : UInt8) (cpu : Cpu) (dev : Devices) : Step :=
  match cpu.fetch with
  | .error e => ⟨⟨.fault (.address e), cpu, dev⟩, []⟩
  | .ok w =>
    match Instruction.ofWord w with
    | .error e => ⟨⟨.fault (.invalidWord e), cpu.advance, dev⟩, []⟩
    | .ok i => ⟨execute o byte i cpu.advance dev, [.executing cpu.pc i]⟩

end Chip8
