import Chip8.Proofs.Ensemble
import Chip8.Proofs.SoundThread
import Mathlib.Data.List.Induction

/-!
# Timers lose neither sets nor ticks

A timer is set by any number of processors and by their surroundings, while somebody
else counts it down.  Whoever uses a timer has it to himself until he is done, so any
interleaving is a list of `Countdown.Act`, one after the other.

Of such a list only the last set and the ticks after it are left (`toNat_after`): the
value is the difference of the two, cut off at zero.  What happens to a timer in the
course of a run is a list of this kind (`timer_performAll`), and what the ticks of the
run find is what they find in the list (`tickedAll_eq_found`).
-/

set_option autoImplicit false

namespace Chip8

/-! ## One timer -/

namespace Countdown

/-- One uninterrupted use of a timer that may change it. -/
inductive Act where
  /-- The timer is set. -/
  | set (v : UInt8)
  /-- The timer counts down. -/
  | tick
  deriving DecidableEq

namespace Act

/-- The timer after an act. -/
def apply (t : Countdown) : Act → Countdown
  | .set v => ⟨v⟩
  | .tick => t.tick.2

/-- The value that a tick returns. -/
def found? (t : Countdown) : Act → Option UInt8
  | .set _ => none
  | .tick => some t.tick.1

/-- The value that the timer is set to. -/
def set? : Act → Option UInt8
  | .set v => some v
  | .tick => none

end Act

/-- The timer after several acts, in their order. -/
def after (t : Countdown) (acts : List Act) : Countdown :=
  acts.foldl Act.apply t

/-- The values that the ticks among several acts return, in their order. -/
def found : Countdown → List Act → List UInt8
  | _, [] => []
  | t, a :: acts => (a.found? t).toList ++ found (a.apply t) acts

/-- The value that was set last, or zero. -/
def lastSet (acts : List Act) : UInt8 :=
  (acts.reverse.findSome? Act.set?).getD 0

/-- The number of ticks since then. -/
def ticksSince (acts : List Act) : Nat :=
  (acts.reverse.takeWhile (· == .tick)).length

theorem after_append (t : Countdown) (acts acts' : List Act) :
    t.after (acts ++ acts') = (t.after acts).after acts' :=
  List.foldl_append

theorem found_append (t : Countdown) (acts acts' : List Act) :
    t.found (acts ++ acts') = t.found acts ++ (t.after acts).found acts' := by
  induction acts generalizing t with
  | nil => rfl
  | cons a acts ih =>
      have hrest := ih (a.apply t)
      calc t.found (a :: acts ++ acts')
          = (a.found? t).toList ++ (a.apply t).found (acts ++ acts') := rfl
        _ = t.found (a :: acts) ++ (t.after (a :: acts)).found acts' := by
            rw [hrest, ← List.append_assoc]
            rfl

theorem lastSet_concat (acts : List Act) (a : Act) :
    lastSet (acts ++ [a]) = a.set?.getD (lastSet acts) := by
  simp only [lastSet, List.reverse_concat, List.findSome?_cons]
  cases a.set? <;> rfl

theorem ticksSince_concat (acts : List Act) (a : Act) :
    ticksSince (acts ++ [a]) = if a = .tick then ticksSince acts + 1 else 0 := by
  simp only [ticksSince, List.reverse_concat, List.takeWhile_cons, beq_iff_eq]
  split <;> rfl

/-- A timer that had run out at first has what is left of the last set after the
ticks since. -/
theorem toNat_after (acts : List Act) :
    (zero.after acts).value.toNat = (lastSet acts).toNat - ticksSince acts := by
  induction acts using List.reverseRecOn with
  | nil => rfl
  | append_singleton acts a ih =>
      have hlast : zero.after (acts ++ [a]) = a.apply (zero.after acts) := after_append _ _ _
      rw [hlast, lastSet_concat, ticksSince_concat]
      cases a with
      | set v => rfl
      | tick =>
          rw [Act.apply, toNat_tick, ih, if_pos rfl, Nat.sub_sub]
          rfl

/-- Ticks alone find the values on the way down. -/
theorem found_replicate_tick (m : Nat) (t : Countdown) :
    t.found (List.replicate m .tick) = values m t := by
  induction m generalizing t with
  | zero => rfl
  | succ m ih =>
      rw [List.replicate_succ, found, ih]
      rfl

theorem length_values (m : Nat) (t : Countdown) : (values m t).length = m := by
  induction m generalizing t with
  | zero => rfl
  | succ m ih => rw [values, List.length_cons, ih]

theorem toNat_of_getElem?_values {m j : Nat} {t : Countdown} {b : UInt8}
    (h : (values m t)[j]? = some b) : b.toNat = t.value.toNat - j := by
  induction m generalizing t j with
  | zero => cases h
  | succ m ih =>
      cases j with
      | zero =>
          obtain rfl := Option.some.inj h
          rfl
      | succ j =>
          have hrest := ih h
          rw [toNat_tick] at hrest
          omega

/-- As many ticks find a value above zero as the timer had units left. -/
theorem countP_values (m : Nat) (t : Countdown) :
    (values m t).countP (· != 0) = min t.value.toNat m := by
  induction m generalizing t with
  | zero => exact (Nat.min_zero _).symm
  | succ m ih =>
      have hzero : t.value = 0 ↔ t.value.toNat = 0 := by
        rw [← UInt8.toNat_inj]
        rfl
      have htick : t.tick.1 = t.value := rfl
      rw [values, List.countP_cons, ih, toNat_tick, htick]
      simp only [bne_iff_ne, ne_eq, hzero]
      split <;> omega

end Countdown

/-! ## Two timers -/

/-- The state of a timer. -/
def Devices.timer (d : Devices) : Timer → Countdown
  | .delay => d.delay
  | .sound => d.sound

/-- What an instruction does with a timer. -/
def Instruction.timerAct? (w : Timer) (i : Instruction) (c : Cpu) : Option Countdown.Act :=
  match w, i with
  | .delay, .setDelay x => some (.set (c.reg x))
  | .sound, .setSound x => some (.set (c.reg x))
  | _, _ => none

namespace Event

variable {ε : Type}

/-- What an event does with a timer. -/
def timerAct? (w : Timer) (e : Event ε) : Option Countdown.Act :=
  match w, e with
  | .delay, .setDelay v => some (.set v)
  | .sound, .setSound v => some (.set v)
  | .delay, .tickDelay => some .tick
  | .sound, .tickSound => some .tick
  | _, _ => none

/-- What is returned to someone who counts a timer down. -/
def ticked? (w : Timer) (e : Event ε) (d : Devices) : Option UInt8 :=
  match w, e with
  | .delay, .tickDelay => some d.tickDelay.1
  | .sound, .tickSound => some d.tickSound.1
  | _, _ => none

theorem timer_apply (w : Timer) (e : Event ε) (d : Devices) :
    (e.apply d).timer w = (d.timer w).after (e.timerAct? w).toList := by
  cases w <;> cases e <;> rfl

theorem ticked_eq_found (w : Timer) (e : Event ε) (d : Devices) :
    (e.ticked? w d).toList = (d.timer w).found (e.timerAct? w).toList := by
  cases w <;> cases e <;> rfl

end Event

theorem Instruction.timer_devicesAfter (w : Timer) (i : Instruction) (c : Cpu) (d : Devices) :
    (i.devicesAfter c d).timer w = (d.timer w).after (i.timerAct? w c).toList := by
  cases i with
  | draw x y rows =>
      have hscreen : (Instruction.draw x y rows).timerAct? w c = none := by
        cases w <;> rfl
      rw [hscreen]
      simp only [Instruction.devicesAfter]
      cases w <;> split <;> rfl
  | _ => cases w <;> rfl

/-- No instruction counts a timer down. -/
theorem Instruction.found_timerAct (w : Timer) (i : Instruction) (c : Cpu) (t : Countdown) :
    t.found (i.timerAct? w c).toList = [] := by
  cases i <;> cases w <;> rfl

/-! ## A run -/

namespace Ensemble

variable {ι ε : Type}

/-- What an act does with a timer. -/
def timerAct? (w : Timer) (s : Ensemble ι) (a : Act ι ε) : Option Countdown.Act :=
  match a, s.executes? a with
  | .event e, _ => e.timerAct? w
  | _, some (_, _, i, c) => i.timerAct? w c
  | _, none => none

/-- What is returned to someone who counts a timer down by an act. -/
def ticked? (w : Timer) (s : Ensemble ι) : Act ι ε → Option UInt8
  | .event e => e.ticked? w s.devices
  | _ => none

variable [DecidableEq ι]

/-- What several acts do with a timer, in their order. -/
def timerActs (o : ι → Options) (w : Timer) : Ensemble ι → List (Act ι ε) → List Countdown.Act
  | _, [] => []
  | s, a :: acts => (s.timerAct? w a).toList ++ timerActs o w (s.perform o a) acts

/-- What is returned to those who count a timer down by several acts. -/
def tickedAll (o : ι → Options) (w : Timer) : Ensemble ι → List (Act ι ε) → List UInt8
  | _, [] => []
  | s, a :: acts => (s.ticked? w a).toList ++ tickedAll o w (s.perform o a) acts

section Timers

variable (o : ι → Options) (w : Timer) (s : Ensemble ι)

/-- An act does with a timer what an event or an instruction does, or nothing, and
it returns what a tick finds. -/
theorem timer_perform (a : Act ι ε) :
    (s.perform o a).devices.timer w = (s.devices.timer w).after (s.timerAct? w a).toList ∧
      (s.ticked? w a).toList = (s.devices.timer w).found (s.timerAct? w a).toList := by
  rcases s.act_cases a with ⟨e, rfl⟩ | ⟨j, byte, i, c, hexec⟩ | ⟨hexec, hno⟩
  · exact ⟨e.timer_apply w s.devices, e.ticked_eq_found w s.devices⟩
  · have hact : s.timerAct? w a = i.timerAct? w c ∧ s.ticked? w a = none := by
      cases a with
      | event e => cases hexec
      | _ => exact ⟨by simp only [timerAct?, hexec], rfl⟩
    rw [hact.1, hact.2, i.found_timerAct, devices_perform_of_executes o hexec]
    exact ⟨i.timer_devicesAfter w c s.devices, rfl⟩
  · have hact : s.timerAct? w a = none ∧ s.ticked? w a = none := by
      cases a with
      | event e => exact absurd rfl (hno e)
      | _ => exact ⟨by simp only [timerAct?, hexec], rfl⟩
    rw [hact.1, hact.2, devices_perform_of_not_executes o hexec hno]
    exact ⟨rfl, rfl⟩

theorem timer_performAll (acts : List (Act ι ε)) :
    (s.performAll o acts).devices.timer w =
      (s.devices.timer w).after (s.timerActs o w acts) := by
  induction acts generalizing s with
  | nil => rfl
  | cons a acts ih =>
      rw [performAll_cons, ih, (timer_perform o w s a).1, timerActs, Countdown.after_append]

/-- The ticks of a run return what they find. -/
theorem tickedAll_eq_found (acts : List (Act ι ε)) :
    s.tickedAll o w acts = (s.devices.timer w).found (s.timerActs o w acts) := by
  induction acts generalizing s with
  | nil => rfl
  | cons a acts ih =>
      obtain ⟨htimer, hticked⟩ := timer_perform o w s a
      rw [tickedAll, timerActs, Countdown.found_append, ih, hticked, htimer]

end Timers

/-- **Timers lose neither sets nor ticks.**  Processors set a timer that had run out
at first, so do their surroundings, and it is counted down, in any order.  Then it
has the value that was set last, less one for each tick since then, and no less than
zero; and this is what a processor reads.  Each tick returns the value from before
it, and leaves one less, or zero.

If a timer is set, and nobody else sets it while it is counted down so many times,
then the ticks return the values from there down to zero: as many of them are above
zero as were set, or all, and these are the first ones. -/
theorem timers_lose_nothing (o : ι → Options) (w : Timer) (s : Ensemble ι)
    (acts : List (Act ι ε)) (hzero : s.devices.timer w = .zero) :
    ((s.performAll o acts).devices.timer w).value.toNat =
        (Countdown.lastSet (s.timerActs o w acts)).toNat -
          Countdown.ticksSince (s.timerActs o w acts) ∧
    (∀ (op : Options) (byte : UInt8) (x : Register) (c : Cpu), w = .delay →
      (execute op byte (.getDelay x) c (s.performAll o acts).devices).cpu.reg x =
        ((s.performAll o acts).devices.timer w).value) ∧
    (∀ a : Act ι ε, (s.performAll o acts).timerAct? w a = some .tick →
      (s.performAll o acts).ticked? w a =
          some ((s.performAll o acts).devices.timer w).value ∧
        ((s.performAll o (acts ++ [a])).devices.timer w).value.toNat =
          ((s.performAll o acts).devices.timer w).value.toNat - 1) ∧
    (∀ (a : Act ι ε) (v : UInt8) (more : List (Act ι ε)) (m : Nat),
      (s.performAll o acts).timerAct? w a = some (.set v) →
      (s.performAll o (acts ++ [a])).timerActs o w more = List.replicate m .tick →
      ((s.performAll o (acts ++ [a])).tickedAll o w more).length = m ∧
        ((s.performAll o (acts ++ [a])).tickedAll o w more).countP (· != 0) =
          min v.toNat m ∧
        ∀ j b, ((s.performAll o (acts ++ [a])).tickedAll o w more)[j]? = some b →
          b.toNat = v.toNat - j ∧ (b ≠ 0 ↔ j < min v.toNat m)) := by
  refine ⟨?_, ?_, ?_, ?_⟩
  · rw [timer_performAll, hzero, Countdown.toNat_after]
  · rintro op byte x c rfl
    simp only [execute, Cpu.reg_setReg, ↓reduceIte]
    rfl
  · intro a htick
    obtain ⟨htimer, hticked⟩ := timer_perform o w (s.performAll o acts) a
    rw [htick] at htimer hticked
    constructor
    · exact Option.toList_eq_singleton_iff.mp hticked
    · rw [performAll_concat, htimer]
      exact Countdown.toNat_tick _
  · intro a v more m hset hticks
    have htimer : (s.performAll o (acts ++ [a])).devices.timer w = ⟨v⟩ := by
      rw [performAll_concat, (timer_perform o w _ a).1, hset]
      rfl
    have hfound : (s.performAll o (acts ++ [a])).tickedAll o w more = Countdown.values m ⟨v⟩ := by
      rw [tickedAll_eq_found, htimer, hticks, Countdown.found_replicate_tick]
    rw [hfound]
    refine ⟨Countdown.length_values m _, Countdown.countP_values m _, ?_⟩
    intro j b hb
    have hvalue : b.toNat = v.toNat - j := Countdown.toNat_of_getElem?_values hb
    have hj : j < m := by
      rw [← Countdown.length_values m ⟨v⟩]
      exact (List.getElem?_eq_some_iff.mp hb).1
    have hne : b ≠ 0 ↔ b.toNat ≠ 0 := by
      rw [ne_eq, ne_eq, ← UInt8.toNat_inj]
      rfl
    refine ⟨hvalue, ?_⟩
    rw [hne, hvalue]
    omega

/-- Two processors that hold 5 in `V3`. -/
def kitchen : Ensemble Bool :=
  .start (fun _ => Cpu.initial.setReg (.ofNat 3) 5) .initial

/-- The delay timer is set by either of them, and counts down in between. -/
def cooking : List (Act Bool Unit) :=
  [.impose false 0 (.setDelay .offset), .event .tickDelay,
    .impose true 0 (.setDelay (.ofNat 3)), .event .tickDelay,
    .impose false 0 (.setSound (.ofNat 3)), .event .tickDelay]

/-- Three ticks, and one of the other timer. -/
def waiting : List (Act Bool Unit) :=
  [.event .tickDelay, .event .tickSound, .event .tickDelay, .event .tickDelay]

/-- `timers_lose_nothing` for a timer that was set to 5 and counted down twice, and is
then set to 2 from outside and counted down to its end. -/
theorem timers_lose_nothing_cooking :
    ((kitchen.performAll (fun _ => .standard) cooking).devices.timer .delay).value.toNat =
        5 - 2 ∧
      (execute .standard 0 (.getDelay .flag) .initial
        (kitchen.performAll (fun _ => .standard) cooking).devices).cpu.reg .flag = 3 ∧
      ((kitchen.performAll (fun _ => .standard)
        (cooking ++ [.event .tickDelay])).devices.timer .delay).value.toNat = 2 ∧
      (kitchen.performAll (fun _ => .standard) (cooking ++ [.event (.setDelay 2)])).tickedAll
        (fun _ => .standard) .delay waiting = [2, 1, 0] ∧
      ((kitchen.performAll (fun _ => .standard) (cooking ++ [.event (.setDelay 2)])).tickedAll
        (fun _ => .standard) .delay waiting).countP (· != 0) = min 2 3 := by
  obtain ⟨hvalue, hread, htick, hset⟩ :=
    timers_lose_nothing (fun _ => .standard) .delay kitchen cooking rfl
  have hthree : ((kitchen.performAll (fun _ => .standard) cooking).devices.timer .delay).value =
      3 := UInt8.toNat_inj.mp hvalue
  refine ⟨hvalue, ?_, ?_, by decide +kernel, ?_⟩
  · rw [hread .standard 0 .flag .initial rfl, hthree]
  · rw [(htick (.event .tickDelay) rfl).2, hthree]
    rfl
  · exact (hset (.event (.setDelay 2)) 2 waiting 3 rfl rfl).2.1

end Ensemble

end Chip8
