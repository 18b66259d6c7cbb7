/-!
# Timers

A timer is a byte that is set at will and counts down to zero, one unit per
tick.  A tick reports the value it found, so that a timer that was set to `v`
is seen above zero for exactly `v` ticks.
-/

set_option autoImplicit false

namespace Chip8

/-! ## Counting down -/

/-- A timer, by its current value. -/
structure Countdown where
  /-- The ticks that are left. -/
  value : UInt8
  deriving DecidableEq, Repr

namespace Countdown

/-- A timer that has run out. -/
def zero : Countdown := ⟨0⟩

instance : Inhabited Countdown := ⟨zero⟩

/-- Counts down by one unless the timer has run out.  The first component is
the value from before the tick. -/
def tick (t : Countdown) : UInt8 × Countdown :=
  (t.value, if t.value = 0 then t else ⟨t.value - 1⟩)

/-- A tick stops at zero. -/
theorem toNat_tick (t : Countdown) : t.tick.2.value.toNat = t.value.toNat - 1 := by
  unfold tick
  by_cases h : t.value = 0
  · simp [h]
  · have hpos : 1 ≤ t.value := by
      rw [UInt8.le_iff_toNat_le]
      have : t.value.toNat ≠ 0 := fun h0 => h (UInt8.toNat_inj.mp h0)
      simp only [UInt8.toNat_one]
      omega
    simp [h, UInt8.toNat_sub_of_le _ _ hpos]

end Countdown

/-- The two timers of a machine. -/
inductive Timer where
  /-- The timer that programs wait by. -/
  | delay
  /-- The timer that the tone lasts for. -/
  | sound
  deriving DecidableEq, Repr

/-- What a timer is called. -/
def Timer.name : Timer → String
  | .delay => "delay timer"
  | .sound => "sound timer"

/-! ## Tick rates -/

/-- A tick rate outside the supported range. -/
structure InvalidFrequency where
  /-- The rejected rate, in ticks per second. -/
  frequency : UInt32
  deriving DecidableEq, Repr

namespace Frequency

/-- The rate used unless another is asked for, in ticks per second. -/
abbrev standard : UInt32 := 60

/-- The highest supported rate, in ticks per second. -/
abbrev highest : UInt32 := 10000

/-- Accepts the rates that timers can run at. -/
def check (f : UInt32) : Except InvalidFrequency UInt32 :=
  if f = 0 ∨ highest < f then .error ⟨f⟩ else .ok f

end Frequency

/-- What is said about a rejected rate. -/
def InvalidFrequency.message (e : InvalidFrequency) : String :=
  "timer frequency must be between 1 and " ++ toString Frequency.highest.toNat ++ " Hz, got "
    ++ toString e.frequency.toNat

end Chip8
