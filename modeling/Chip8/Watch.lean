import Chip8.Simulation

/-!
# Watching a machine

Someone outside waits until something is true of the devices of a running
machine, and has the run ended then.  A machine at work is too fast to be
stopped at a certain action: by the time its watcher has seen anything, it has
long gone on.  So a watch comes to its end before the machine begins, in the
pause after a draw, or when the machine is idle, and at no other time.  If the
timers are ticking, it does not end before they have run out.
-/

set_option autoImplicit false

namespace Chip8

/-- How the timers go along with the work of a machine. -/
structure Pace where
  /-- Whether the timers are ticking. -/
  ticking : Bool
  /-- How many actions the machine can take between two ticks. -/
  actions : Nat
  deriving DecidableEq, Repr

/-- A watch over a machine. -/
structure Watch where
  /-- The machine in its surroundings. -/
  simulation : Simulation
  /-- How long the machine still pauses, counted in actions. -/
  pause : Nat
  /-- How many actions there is time for before the next tick. -/
  left : Nat
  /-- Whether what is waited for was seen. -/
  seen : Bool

namespace Watch

/-- How many actions a machine can take in a millisecond. -/
abbrev actionsPerMillisecond : Nat := 1000

/-- The watcher looks at the devices. -/
def look (goal : Devices → Bool) (w : Watch) : Watch :=
  { w with seen := w.seen || goal w.simulation.devices }

/-- A watch that begins, with a first look. -/
def start (p : Pace) (goal : Devices → Bool) (s : Simulation) : Watch :=
  look goal ⟨s, 0, p.actions, false⟩

/-- The time until the next tick has passed, and so has some of a pause. -/
def tick (p : Pace) (w : Watch) : Watch :=
  { w with
    simulation := if p.ticking then w.simulation.tick else w.simulation
    pause := w.pause - w.left
    left := p.actions }

/-- The pause is over, and the machine works until the next one, until it is
idle, or until the next tick. -/
def work (w : Watch) : Watch :=
  let stretch := w.simulation.workToPause (w.left - w.pause)
  if stretch.pauses then
    let pause := stretch.simulation.options.drawDelay * actionsPerMillisecond
    { w with simulation := stretch.simulation, pause, left := stretch.spare }
  else
    { w with simulation := stretch.simulation, pause := 0, left := 0 }

/-- One turn: the next tick, if the machine pauses until then, or some work; and
a look at the devices. -/
def turn (p : Pace) (goal : Devices → Bool) (w : Watch) : Watch :=
  look goal (if w.left ≤ w.pause then w.tick p else w.work)

/-- Whether the timers have run out, if they are ticking. -/
def timersOut (p : Pace) (w : Watch) : Bool :=
  !p.ticking || w.simulation.timersOut

/-- Whether a watch is over: no timer has to run out, and either the machine is
idle, so that nothing more can happen, or it pauses after what was seen. -/
def isOver (p : Pace) (w : Watch) : Bool :=
  w.timersOut p && (w.simulation.isIdle || w.seen && 0 < w.pause)

/-- The watch goes on until it is over; at most `fuel` turns. -/
def keep (p : Pace) (goal : Devices → Bool) : Nat → Watch → Watch
  | 0, w => w
  | fuel + 1, w =>
    let w' := w.turn p goal
    if w'.isOver p then w' else keep p goal fuel w'

/-- Watches a machine.  If what is waited for is true from the first, the
machine does nothing. -/
def run (p : Pace) (goal : Devices → Bool) (fuel : Nat) (s : Simulation) : Watch :=
  let w := start p goal s
  if w.seen && w.timersOut p then w else w.keep p goal fuel

end Watch

end Chip8
