import Chip8.Console.Session

/-!
# Rehearsing a session

A rehearsal plays a whole session whose typing is known beforehand, on a clock
of its own.  The script says what is typed: one chunk at a time, each as soon
as there is one more picture to answer to.  Every action of the machine takes a
fixed short time, a draw is followed by its pause, and in between the timers
tick and the screen is looked at when they are due.  A machine that is idle is
left alone until something is due.
-/

set_option autoImplicit false

namespace Chip8.Console

/-- What is still to be typed in a session. -/
structure Script where
  /-- The chunks that were typed so far. -/
  count : Nat
  /-- The chunks that are left. -/
  chunks : List (List UInt8)
  /-- Whether the input ends behind the last chunk. -/
  closes : Bool
  deriving DecidableEq, Repr

/-- A session under rehearsal. -/
structure Rehearsal where
  /-- The session as it is now. -/
  session : Session
  /-- What is still to be typed. -/
  script : Script
  /-- When things are due. -/
  clock : Clock
  /-- The time. -/
  now : Nat

namespace Rehearsal

/-- The time that an action of the machine takes, in nanoseconds. -/
abbrev actionTime : Nat := 1000

/-- The beginning: `input` is typed at once, and if there are no chunks to wait
for the input ends there and then if it does at all. -/
def start (frequency : UInt32) (input : List UInt8) (chunks : List (List UInt8))
    (closes : Bool) (s : Session) : Rehearsal :=
  let typed := s.type input
  ⟨if closes && chunks.isEmpty then typed.endInput else typed, ⟨0, chunks, closes⟩,
    .start frequency 0, 0⟩

/-- The chunk that can be typed now.  The first waits for one picture, the
second for two, and so on. -/
def cue? (r : Rehearsal) : Option (List UInt8) :=
  if r.script.count < r.session.printed.size then r.script.chunks.head? else none

/-- Types the next chunk if it can be typed. -/
def prompt (r : Rehearsal) : Rehearsal :=
  match r.cue? with
  | none => r
  | some chunk =>
    let rest := r.script.chunks.tail
    let typed := r.session.type chunk
    { r with
      session := if r.script.closes && rest.isEmpty then typed.endInput else typed
      script := { r.script with count := r.script.count + 1, chunks := rest } }

/-- The machine works until something is due, or until it pauses. -/
def work (r : Rehearsal) : Rehearsal :=
  let most := (r.clock.due - r.now) / actionTime
  let stretch := r.session.simulation.workToPause most
  let session := { r.session with simulation := stretch.simulation }
  if stretch.pauses then
    let now := r.now + (most - stretch.spare) * actionTime
    { r with session, now, clock := r.clock.pause now stretch.simulation.options.drawDelay }
  else
    { r with session, now := r.clock.due }

/-- One turn: what is due happens, then what can be typed is typed, and then the
machine works or its pause goes on. -/
def turn (r : Rehearsal) : Rehearsal :=
  let (session, clock) := r.session.strike r.now r.clock
  let r := { r with session, clock }.prompt
  if r.clock.pauses r.now then { r with now := min r.clock.due r.clock.resume } else r.work

/-- Whether a picture will be printed when the screen is looked at. -/
def pictureDue (r : Rehearsal) : Bool :=
  r.session.showsScreen && r.session.simulation.devices.screen.dirty

/-- Whether nothing more will come: the machine has ended, or it is idle and
there is nothing that it could be roused by. -/
def isOver (r : Rehearsal) : Bool :=
  r.session.simulation.hasEnded ||
    r.session.simulation.isIdle && r.cue?.isNone && !r.pictureDue

/-- Plays until nothing more will come, at most so many turns. -/
def play : Nat → Rehearsal → Session
  | 0, r => r.session
  | turns + 1, r => if r.isOver then r.session else play turns r.turn

end Rehearsal

end Chip8.Console
