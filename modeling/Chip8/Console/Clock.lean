import Chip8.Timer

/-!
# Keeping time

What happens at certain times while a program is played: the timers tick at
their rate, the screen is looked at about thirty times a second, and after each
draw the machine pauses.  All times are in nanoseconds of one and the same
clock, be it a real one or not.
-/

set_option autoImplicit false

namespace Chip8.Console

/-- When things are due. -/
structure Clock where
  /-- The time between two ticks of the timers. -/
  period : Nat
  /-- When the timers tick next. -/
  tick : Nat
  /-- When the screen is looked at next. -/
  frame : Nat
  /-- When the last pause of the machine is over. -/
  resume : Nat
  deriving DecidableEq, Repr

namespace Clock

/-- The nanoseconds of a millisecond. -/
abbrev millisecond : Nat := 1000000

/-- The time between two looks at the screen. -/
abbrev frameInterval : Nat := 33 * millisecond

/-- A clock with everything due at once, for timers of a given rate. -/
def start (frequency : UInt32) (now : Nat) : Clock :=
  ⟨1000 * millisecond / frequency.toNat, now, now, now⟩

/-- When anything is due next. -/
def due (c : Clock) : Nat :=
  min c.tick c.frame

/-- Whether the machine pauses at a time. -/
def pauses (c : Clock) (now : Nat) : Bool :=
  now < c.resume

/-- The clock after the timers have ticked.  A tick that is late by a period or
more is not made up for. -/
def ticked (c : Clock) (now : Nat) : Clock :=
  let next := c.tick + c.period
  { c with tick := if next ≤ now then now + c.period else next }

/-- The clock after the screen was looked at. -/
def framed (c : Clock) (now : Nat) : Clock :=
  { c with frame := now + frameInterval }

/-- The clock when a pause begins, of so many milliseconds. -/
def pause (c : Clock) (now delay : Nat) : Clock :=
  { c with resume := now + delay * millisecond }

end Clock

end Chip8.Console
