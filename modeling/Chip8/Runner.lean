import Chip8.Execute

/-!
# Running a processor

A runner is a processor at work: it looks whether the run is over, executes an
instruction, looks again, and so on.  `advance` takes the next single action of
a runner, with the devices as they are at that moment.  Between two actions
anything may happen to the devices, so every interleaving of runners with their
surroundings is a sequence of these actions and theirs.

An instruction that waits for a key takes several actions.  Its step has moved
the program counter on when the wait begins, and the wait is the same
instruction tried again.
-/

set_option autoImplicit false

namespace Chip8

/-- What a runner is about to do. -/
inductive Phase where
  /-- Look whether the run is over. -/
  | checking
  /-- Execute the instruction at the program counter. -/
  | stepping
  /-- Look again for a key that is meant for this register. -/
  | waiting (x : Register)
  /-- Nothing more: the run is over, or the fault stopped it. -/
  | ended (fault : Option Fault)
  deriving DecidableEq, Repr

/-- What a runner does after an instruction that ended in a certain way. -/
def Phase.after : Outcome → Phase
  | .done => .checking
  | .fault f => .ended (some f)
  | .blocked x => .waiting x

/-- A processor at work. -/
structure Runner where
  /-- The processor. -/
  cpu : Cpu
  /-- What comes next. -/
  phase : Phase
  deriving DecidableEq

namespace Runner

/-- A runner that is about to look whether the run is over. -/
def start (cpu : Cpu) : Runner :=
  ⟨cpu, .checking⟩

/-- The state in which an action leaves a runner and its devices, and what it tells. -/
structure Action where
  /-- The runner afterwards. -/
  runner : Runner
  /-- The devices afterwards. -/
  devices : Devices
  /-- What there is to tell. -/
  log : List Notice

/-- The action that ends with the effect of an instruction. -/
def Action.ofEffect (e : Effect) (log : List Notice) : Action :=
  ⟨⟨e.cpu, Phase.after e.outcome⟩, e.devices, log⟩

/-- The next action of a runner. -/
def advance (o : Options) (byte : UInt8) (r : Runner) (dev : Devices) : Action :=
  match r.phase with
  | .checking => ⟨{ r with phase := if dev.down then .ended none else .stepping }, dev, []⟩
  | .stepping =>
    let s := step o byte r.cpu dev
    .ofEffect s.effect s.log
  | .waiting x => .ofEffect (execute o byte (.waitKey x) r.cpu dev) []
  | .ended _ => ⟨r, dev, []⟩

/-- Whether a runner has ended. -/
def hasEnded (r : Runner) : Bool :=
  match r.phase with
  | .ended _ => true
  | _ => false

/-- Whether a runner makes no headway until its surroundings do something: it
has ended, it waits for a key, or its next instruction jumps to itself. -/
def isIdle (r : Runner) (dev : Devices) : Bool :=
  match r.phase with
  | .ended _ => true
  | .waiting _ => !dev.keys.closed && dev.keys.keys.isEmpty
  | .checking | .stepping =>
    !dev.down &&
      match r.cpu.current with
      | .ok (.jump a) => a == r.cpu.pc
      | .ok (.jumpOffset a) => a + (r.cpu.reg .offset).toUInt16 == r.cpu.pc
      | _ => false

/-- Whether the next action of a runner is a draw. -/
def drawsNext (r : Runner) : Bool :=
  match r.phase, r.cpu.current with
  | .stepping, .ok (.draw _ _ _) => true
  | _, _ => false

/-- A runner that has ended does nothing more. -/
theorem advance_of_hasEnded {o : Options} {byte : UInt8} {r : Runner} {dev : Devices}
    (h : r.hasEnded = true) : r.advance o byte dev = ⟨r, dev, []⟩ := by
  unfold hasEnded at h
  unfold advance
  split at h
  · rename_i hp
    simp [hp]
  · cases h

end Runner

end Chip8
