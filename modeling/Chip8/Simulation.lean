import Chip8.Dice
import Chip8.Runner
import Chip8.Tone

/-!
# One machine in its surroundings

A simulation is a runner together with its devices, the loop that plays the
tone, a source of random bytes, and what has been told so far.  Its operations
are single events: the runner acts, the timers tick, a key is pressed, the run
is ended.  Who drives a simulation decides in which order they happen.
-/

set_option autoImplicit false

namespace Chip8

/-- A machine in its surroundings. -/
structure Simulation where
  /-- How the machine behaves where machines differ. -/
  options : Options
  /-- The processor at work. -/
  runner : Runner
  /-- Its devices. -/
  devices : Devices
  /-- The loop that plays the tone. -/
  tone : SoundLoop
  /-- Where random bytes come from. -/
  dice : Dice
  /-- Which notices are kept. -/
  verbosity : Verbosity
  /-- The notices kept so far. -/
  log : Array Notice

namespace Simulation

/-- A simulation of a processor that is about to run. -/
def start (o : Options) (cpu : Cpu) (dev : Devices) (v : Verbosity) (d : Dice) : Simulation :=
  ⟨o, .start cpu, dev, .initial, d, v, #[]⟩

/-- Keeps the notices that the verbosity shows. -/
def tell (s : Simulation) (notices : List Notice) : Simulation :=
  { s with log := s.log ++ (notices.filter fun n => s.verbosity.shows n.level) }

/-- Whether the runner has ended. -/
def hasEnded (s : Simulation) : Bool :=
  s.runner.hasEnded

/-- Whether the runner makes no headway on its own. -/
def isIdle (s : Simulation) : Bool :=
  s.runner.isIdle s.devices

/-! ## Events -/

/-- The runner takes its next action. -/
def act (s : Simulation) : Simulation :=
  let (byte, dice) := s.dice.roll
  let a := s.runner.advance s.options byte s.devices
  { s with runner := a.runner, devices := a.devices, dice }.tell a.log

/-- Both timers count down once, unless the run is over. -/
def tick (s : Simulation) : Simulation :=
  let dev := if s.devices.down then s.devices else s.devices.tickDelay.2
  let (tone, devices, calls) := s.tone.iterate dev
  { s with tone, devices }.tell (calls.flatMap (ToneCall.notices s.devices.down))

/-- A key is pressed. -/
def press (s : Simulation) (k : Key) : Simulation :=
  { s with devices := s.devices.press k }

/-- Several keys are pressed. -/
def pressAll (s : Simulation) (ks : List Key) : Simulation :=
  { s with devices := s.devices.pressAll ks }

/-- Pressing no keys changes nothing. -/
theorem pressAll_nil (s : Simulation) : s.pressAll [] = s := by
  simp [pressAll, Devices.pressAll, KeyQueue.pushAll_nil]

/-- Of several keys the last is pressed last. -/
theorem pressAll_concat (s : Simulation) (ks : List Key) (k : Key) :
    s.pressAll (ks ++ [k]) = (s.pressAll ks).press k := by
  simp [pressAll, press, Devices.pressAll, Devices.press, KeyQueue.pushAll_concat]

/-- The run is ended. -/
def shutDown (s : Simulation) : Simulation :=
  let (devices, log) := s.devices.shutDown
  { s with devices }.tell log

/-! ## Stretches of work -/

/-- A stretch of work, and how it ended. -/
structure Stretch where
  /-- The simulation at its end. -/
  simulation : Simulation
  /-- How many more actions there could have been. -/
  spare : Nat
  /-- Whether it ended because the machine pauses. -/
  pauses : Bool

/-- Whether the next action of the runner is a draw that a pause follows. -/
def pausesNext (s : Simulation) : Bool :=
  s.runner.drawsNext && 0 < s.options.drawDelay

/-- The runner acts until it pauses after a draw or is idle, at most `most` times. -/
def workToPause : Nat → Simulation → Stretch
  | 0, s => ⟨s, 0, false⟩
  | most + 1, s =>
    if s.isIdle then ⟨s, most + 1, false⟩
    else
      let s' := s.act
      if s.pausesNext && !s'.hasEnded then ⟨s', most, true⟩ else workToPause most s'

/-- Whether the timers have run out. -/
def timersOut (s : Simulation) : Bool :=
  s.devices.delay.value == 0 && s.devices.sound.value == 0

/-- The fault that stopped the runner, if one did. -/
def fault? (s : Simulation) : Option Fault :=
  match s.runner.phase with
  | .ended f => f
  | _ => none

end Simulation

end Chip8
