import Mathlib.Data.List.Chain
import Chip8.Tone

/-!
# The loop of the sound timer, one act at a time

`SoundLoop.iterate` is one turn of the loop that counts the sound timer down, all
at once.  Here the turn is taken apart into what the loop does one after the
other: it looks whether the run is over, counts down, and tells the buzzer.
Between any two of these the timer can be set and the run can be ended, so each
act has devices of its own.

The signs of the loop are what it saw and what it told, in their order.  The
lemmas on `act` say what one act adds to them, whatever the devices are: what it
tells was due, or answers what it sees (`score_act`).
-/

set_option autoImplicit false

namespace Chip8

/-! ## What is told -/

namespace ToneCall

/-- The changes in a sequence of timer values: a start where the timer comes up
from zero, and a stop where it comes down to zero. -/
def changes : List UInt8 → List ToneCall
  | a :: b :: rest =>
    (if a = 0 ∧ b ≠ 0 then [.start] else if a ≠ 0 ∧ b = 0 then [.stop] else []) ++
      changes (b :: rest)
  | _ => []

/-- Whether there is a tone after a call. -/
def sounds : ToneCall → Bool
  | .start => true
  | .stop => false

/-- The calls turn a tone that is or is not playing into one that is or is not, and
each of them changes that. -/
def Turns : Bool → List ToneCall → Bool → Prop
  | p, [], q => p = q
  | p, c :: cs, q => p ≠ c.sounds ∧ Turns c.sounds cs q

theorem change_eq (a b : UInt8) :
    change (a != 0) (b != 0) =
      if a = 0 ∧ b ≠ 0 then [.start] else if a ≠ 0 ∧ b = 0 then [.stop] else [] := by
  cases ha : a != 0 <;> cases hb : b != 0 <;>
    simp only [bne_eq_false_iff_eq, bne_iff_ne] at ha hb <;> simp [change, ha, hb]

theorem turns_change (p q : Bool) : Turns p (change p q) q := by
  cases p <;> cases q <;> simp [change, Turns, sounds]

theorem Turns.append {p q r : Bool} {cs ds : List ToneCall} (h : Turns p cs q)
    (h' : Turns q ds r) : Turns p (cs ++ ds) r := by
  induction cs generalizing p with
  | nil =>
      obtain rfl : p = q := h
      exact h'
  | cons c cs ih => exact ⟨h.1, ih h.2⟩

theorem Turns.head {p q : Bool} {c : ToneCall} {cs : List ToneCall} (h : Turns p cs q)
    (hc : c ∈ cs.head?) : p ≠ c.sounds := by
  cases cs with
  | nil => cases hc
  | cons d ds =>
      obtain rfl : d = c := Option.some.inj hc
      exact h.1

theorem Turns.isChain {p q : Bool} {cs : List ToneCall} (h : Turns p cs q) :
    cs.IsChain (· ≠ ·) := by
  induction cs generalizing p with
  | nil => exact .nil
  | cons c cs ih =>
      refine (ih h.2).cons ?_
      intro d hd hsame
      exact h.2.head hd (congrArg sounds hsame)

/-- Between starts and stops there is the difference of the tone itself. -/
theorem Turns.count {p q : Bool} {cs : List ToneCall} (h : Turns p cs q) :
    cs.count .start + p.toNat = cs.count .stop + q.toNat := by
  induction cs generalizing p with
  | nil =>
      obtain rfl : p = q := h
      rfl
  | cons c cs ih =>
      have hrest := ih h.2
      have hp : p = !c.sounds := Bool.eq_not.mpr h.1
      rw [hp]
      cases c with
      | start =>
          rw [List.count_cons_self, List.count_cons_of_ne (by decide)]
          simp only [sounds, Bool.not_true, Bool.toNat_true, Bool.toNat_false] at hrest ⊢
          omega
      | stop =>
          rw [List.count_cons_self, List.count_cons_of_ne (by decide)]
          simp only [sounds, Bool.not_false, Bool.toNat_true, Bool.toNat_false] at hrest ⊢
          omega

end ToneCall

/-! ## Counting down -/

namespace Countdown

/-- The values that a timer is found at in several ticks. -/
def values : Nat → Countdown → List UInt8
  | 0, _ => []
  | n + 1, t => t.tick.1 :: values n t.tick.2

/-- The values below `n`, down to zero. -/
def below : Nat → List UInt8
  | 0 => []
  | n + 1 => UInt8.ofNat n :: below n

/-- A timer is found at each value down to zero. -/
theorem values_to_zero (v : UInt8) : values (v.toNat + 1) ⟨v⟩ = v :: below v.toNat := by
  obtain ⟨k, hk⟩ : ∃ k, v.toNat = k := ⟨_, rfl⟩
  rw [hk]
  induction k generalizing v with
  | zero => rfl
  | succ k ih =>
      have htick : (⟨v⟩ : Countdown).tick.2.value.toNat = k := by
        rw [toNat_tick]
        simp only [hk, Nat.add_sub_cancel]
      have hvalue : (⟨v⟩ : Countdown).tick.2.value = UInt8.ofNat k := by
        rw [← htick, UInt8.ofNat_toNat]
      calc values (k + 1 + 1) ⟨v⟩
          = v :: values (k + 1) (⟨v⟩ : Countdown).tick.2 := rfl
        _ = v :: (⟨v⟩ : Countdown).tick.2.value :: below k := by rw [ih _ htick]
        _ = v :: below (k + 1) := by rw [hvalue, below]

end Countdown

/-! ## The loop, one act at a time -/

/-- What the loop of the sound timer sees. -/
inductive Sight where
  /-- The timer had this value before it counted down. -/
  | value (v : UInt8)
  /-- The news that the run is over. -/
  | news
  deriving DecidableEq, Repr

/-- Whether there should be a tone from then on. -/
def Sight.wants : Sight → Bool
  | .value v => v != 0
  | .news => false

/-- What the loop of the sound timer sees, or tells the buzzer. -/
inductive Sign where
  | saw (x : Sight)
  | told (call : ToneCall)
  deriving DecidableEq, Repr

namespace Sign

/-- What was seen, in its order. -/
def sights (signs : List Sign) : List Sight :=
  signs.filterMap fun
    | .saw x => some x
    | .told _ => none

/-- What was told, in its order. -/
def calls (signs : List Sign) : List ToneCall :=
  signs.filterMap fun
    | .saw _ => none
    | .told call => some call

/-- The values that the timer was found at, in their order. -/
def found (signs : List Sign) : List UInt8 :=
  (sights signs).filterMap fun
    | .value v => some v
    | .news => none

/-- What a buzzer is told that is or is not playing, if it should. -/
def change (playing wanted : Bool) : List Sign :=
  (ToneCall.change playing wanted).map .told

/-- What is told about several sights, each of them answered at once. -/
def score : Bool → List Sight → List Sign
  | _, [] => []
  | playing, x :: xs => .saw x :: change playing x.wants ++ score x.wants xs

@[simp] theorem sights_nil : sights [] = [] := rfl

@[simp] theorem calls_nil : calls [] = [] := rfl

@[simp] theorem found_nil : found [] = [] := rfl

@[simp] theorem sights_append (l l' : List Sign) : sights (l ++ l') = sights l ++ sights l' :=
  List.filterMap_append

@[simp] theorem calls_append (l l' : List Sign) : calls (l ++ l') = calls l ++ calls l' :=
  List.filterMap_append

@[simp] theorem found_append (l l' : List Sign) : found (l ++ l') = found l ++ found l' := by
  simp only [found, sights_append, List.filterMap_append]

@[simp] theorem change_self (p : Bool) : change p p = [] := by
  cases p <;> rfl

@[simp] theorem sights_change (p q : Bool) : sights (change p q) = [] := by
  cases p <;> cases q <;> rfl

@[simp] theorem found_change (p q : Bool) : found (change p q) = [] := by
  cases p <;> cases q <;> rfl

@[simp] theorem calls_change (p q : Bool) : calls (change p q) = ToneCall.change p q := by
  cases p <;> cases q <;> rfl

@[simp] theorem sights_cons_saw (x : Sight) (l : List Sign) :
    sights (.saw x :: l) = x :: sights l := rfl

@[simp] theorem calls_cons_saw (x : Sight) (l : List Sign) :
    calls (.saw x :: l) = calls l := rfl

@[simp] theorem found_cons_value (v : UInt8) (l : List Sign) :
    found (.saw (.value v) :: l) = v :: found l := rfl

@[simp] theorem found_cons_news (l : List Sign) : found (.saw .news :: l) = found l := rfl

/-- Up to the end of the run, the score tells the changes in what was found. -/
theorem calls_score (a : UInt8) (bs : List UInt8) :
    calls (score (a != 0) (bs.map .value ++ [.news])) =
      ToneCall.changes (a :: bs ++ [0]) := by
  induction bs generalizing a with
  | nil =>
      have hend := ToneCall.change_eq a 0
      simpa [score, Sight.wants, ToneCall.changes] using hend
  | cons b bs ih =>
      calc calls (score (a != 0) ((b :: bs).map .value ++ [.news]))
          = ToneCall.change (a != 0) (b != 0) ++
              calls (score (b != 0) (bs.map .value ++ [.news])) := by
            simp [score, Sight.wants]
        _ = ToneCall.changes (a :: (b :: bs) ++ [0]) := by
            rw [ih, ToneCall.change_eq]
            rfl

/-- What is told about a tone that is playing while the timer counts down to zero. -/
theorem score_to_zero {n : Nat} (hpos : 0 < n) (hn : n ≤ 256) :
    score true ((Countdown.below n).map .value) =
      (Countdown.below n).map (fun b => .saw (.value b)) ++ [.told .stop] := by
  induction n with
  | zero => cases hpos
  | succ n ih =>
      cases n with
      | zero => rfl
      | succ k =>
          have hwants : (UInt8.ofNat (k + 1) != 0) = true := by
            rw [bne_iff_ne, ne_eq, ← UInt8.toNat_inj, UInt8.toNat_ofNat_of_lt' hn]
            exact Nat.succ_ne_zero k
          calc score true ((Countdown.below (k + 1 + 1)).map .value)
              = .saw (.value (UInt8.ofNat (k + 1))) ::
                  score true ((Countdown.below (k + 1)).map .value) := by
                rw [Countdown.below, List.map_cons, score, Sight.wants, hwants]
                rfl
            _ = (Countdown.below (k + 1 + 1)).map (fun b => .saw (.value b)) ++ [.told .stop] := by
                rw [ih (Nat.succ_pos k) (by omega)]
                rfl

end Sign

/-- What the loop of the sound timer does next. -/
inductive SoundPhase where
  /-- Look whether the run is over. -/
  | looking
  /-- Count down. -/
  | ticking
  /-- Tell the buzzer what comes of a sight. -/
  | telling (x : Sight)
  /-- Nothing more. -/
  | ended
  deriving DecidableEq, Repr

/-- What the loop does after it has told what comes of a sight. -/
def SoundPhase.after : Sight → SoundPhase
  | .value _ => .looking
  | .news => .ended

/-- The loop of the sound timer between two of its acts. -/
structure SoundThread where
  /-- Whether the tone is playing. -/
  playing : Bool
  /-- What comes next. -/
  phase : SoundPhase
  deriving DecidableEq, Repr

namespace SoundThread

/-- A loop that is about to take a turn, or has ended. -/
def ofLoop (l : SoundLoop) : SoundThread :=
  ⟨l.playing, if l.ended then .ended else .looking⟩

/-- What an act of the loop leaves behind. -/
structure Action where
  /-- The loop afterwards. -/
  thread : SoundThread
  /-- The devices afterwards. -/
  devices : Devices
  /-- What the loop saw or told. -/
  signs : List Sign

/-- The next act of the loop. -/
def act (t : SoundThread) (dev : Devices) : Action :=
  match t.phase with
  | .looking =>
    if dev.down then ⟨⟨t.playing, .telling .news⟩, dev, [.saw .news]⟩
    else ⟨⟨t.playing, .ticking⟩, dev, []⟩
  | .ticking =>
    let (old, dev') := dev.tickSound
    ⟨⟨t.playing, .telling (.value old)⟩, dev', [.saw (.value old)]⟩
  | .telling x => ⟨⟨x.wants, .after x⟩, dev, Sign.change t.playing x.wants⟩
  | .ended => ⟨t, dev, []⟩

/-- Whether the tone will be playing when the loop looks again. -/
def settled (t : SoundThread) : Bool :=
  match t.phase with
  | .telling x => x.wants
  | _ => t.playing

/-- What the loop has to tell the buzzer before that. -/
def due (t : SoundThread) : List Sign :=
  Sign.change t.playing t.settled

/-- Whether the loop has seen that the run is over. -/
def isOver (t : SoundThread) : Bool :=
  match t.phase with
  | .telling .news | .ended => true
  | _ => false

/-- The acts that the loop has still to take after the news that the run is over. -/
def left (t : SoundThread) : Nat :=
  match t.phase with
  | .ticking => 4
  | .telling (.value _) => 3
  | .looking => 2
  | .telling .news => 1
  | .ended => 0

/-- The acts that the loop has taken in the turn of its next sight. -/
def taken (t : SoundThread) : Nat :=
  match t.phase with
  | .looking => 1
  | .ticking => 2
  | _ => 0

/-- A whole number of turns leads from looking to looking. -/
theorem looking_of_taken {t : SoundThread} {m n : Nat} (h : 1 + 3 * n = t.taken + 3 * m) :
    t.phase = .looking ∧ m = n := by
  unfold taken at h
  cases ht : t.phase with
  | looking =>
      simp only [ht] at h
      exact ⟨rfl, by omega⟩
  | _ =>
      simp only [ht] at h
      omega

theorem left_le (t : SoundThread) : t.left ≤ 4 := by
  unfold left
  split <;> decide

theorem ended_of_left {t : SoundThread} (h : t.left = 0) : t.phase = .ended := by
  unfold left at h
  split at h
  case h_5 ht => exact ht
  all_goals cases h

theorem phase_of_over (t : SoundThread) (h : t.isOver = true) :
    t.phase = .telling .news ∨ t.phase = .ended := by
  unfold isOver at h
  split at h
  · exact Or.inl ‹_›
  · exact Or.inr ‹_›
  · cases h

theorem phase_of_not_over (t : SoundThread) (h : t.isOver = false) :
    t.phase = .looking ∨ t.phase = .ticking ∨ ∃ v, t.phase = .telling (.value v) := by
  unfold isOver at h
  cases ht : t.phase with
  | looking => exact Or.inl rfl
  | ticking => exact Or.inr (Or.inl rfl)
  | telling x =>
      cases x with
      | value v => exact Or.inr (Or.inr ⟨v, rfl⟩)
      | news => simp [ht] at h
  | ended => simp [ht] at h

/-- What a loop sees in a run: values of the timer, and at last the news. -/
structure Sees (t : SoundThread) (signs : List Sign) (t' : SoundThread) : Prop where
  nothing : t.isOver = true → Sign.sights signs = [] ∧ t'.isOver = true
  values : t.isOver = false →
    Sign.sights signs = (Sign.found signs).map .value ++ if t'.isOver then [.news] else []

theorem sees_nil (t : SoundThread) : t.Sees [] t where
  nothing h := ⟨rfl, h⟩
  values h := by
    rw [h]
    rfl

section Act

variable (t : SoundThread) (dev : Devices)

theorem turns_act :
    ToneCall.Turns t.playing (Sign.calls (t.act dev).signs) (t.act dev).thread.playing := by
  cases ht : t.phase with
  | looking => cases hdown : dev.down <;> simp [act, ht, hdown, ToneCall.Turns]
  | telling x => simp [act, ht, ToneCall.turns_change]
  | _ => simp [act, ht, ToneCall.Turns]

/-- What an act tells was due, or answers what it sees. -/
theorem score_act (xs : List Sight) :
    (t.act dev).signs ++ ((t.act dev).thread.due ++ Sign.score (t.act dev).thread.settled xs) =
      t.due ++ Sign.score t.settled (Sign.sights (t.act dev).signs ++ xs) := by
  cases ht : t.phase with
  | looking => cases hdown : dev.down <;> simp [act, ht, hdown, due, settled, Sign.score]
  | telling x => cases x <;> simp [act, ht, due, settled, SoundPhase.after]
  | _ => simp [act, ht, due, settled, Sign.score]

/-- After the news nothing more is seen. -/
theorem sights_act_of_over (hover : t.isOver = true) :
    Sign.sights (t.act dev).signs = [] ∧ (t.act dev).thread.isOver = true := by
  rcases t.phase_of_over hover with ht | ht
  · simp [act, ht, isOver, SoundPhase.after]
  · simp [act, ht, isOver]

/-- What is seen is a value of the timer, or else the news. -/
theorem sights_act (hover : t.isOver = false) :
    Sign.sights (t.act dev).signs = (Sign.found (t.act dev).signs).map .value ++
      if (t.act dev).thread.isOver then [.news] else [] := by
  rcases t.phase_of_not_over hover with ht | ht | ⟨v, ht⟩
  · cases hdown : dev.down <;> simp [act, ht, hdown, isOver]
  · simp [act, ht, isOver]
  · simp [act, ht, isOver, SoundPhase.after]

variable {t dev} in
theorem Sees.act {signs : List Sign} {t' : SoundThread}
    (h : (t.act dev).thread.Sees signs t') : t.Sees ((t.act dev).signs ++ signs) t' where
  nothing := by
    intro hover
    obtain ⟨hsights, hstill⟩ := t.sights_act_of_over dev hover
    rw [Sign.sights_append, hsights]
    exact h.nothing hstill
  values := by
    intro hover
    rw [Sign.sights_append, Sign.found_append, t.sights_act dev hover, List.map_append,
      List.append_assoc, List.append_assoc]
    congr 1
    cases hnext : (t.act dev).thread.isOver with
    | false => simpa using h.values hnext
    | true =>
        obtain ⟨hsights, hend⟩ := h.nothing hnext
        simp [hsights, hend, Sign.found]

/-- The news is seen where it was given. -/
theorem isOver_act (hdown : dev.down = false) (hover : t.isOver = false) :
    (t.act dev).thread.isOver = false := by
  rcases t.phase_of_not_over hover with ht | ht | ⟨v, ht⟩ <;>
    simp [act, ht, hdown, isOver, SoundPhase.after]

/-- A turn takes three acts. -/
theorem taken_act (hdown : dev.down = false) (hover : t.isOver = false) :
    t.taken + 1 = (t.act dev).thread.taken + 3 * (Sign.found (t.act dev).signs).length := by
  rcases t.phase_of_not_over hover with ht | ht | ⟨v, ht⟩ <;>
    simp [act, ht, hdown, taken, SoundPhase.after]

/-- A loop that ends leaves no tone. -/
theorem silent_act (h : t.phase = .ended → t.playing = false)
    (hended : (t.act dev).thread.phase = .ended) : (t.act dev).thread.playing = false := by
  cases ht : t.phase with
  | looking => cases hdown : dev.down <;> simp [act, ht, hdown] at hended
  | ticking => simp [act, ht] at hended
  | telling x =>
      cases x with
      | value v => simp [act, ht, SoundPhase.after] at hended
      | news => simp [act, ht, Sight.wants]
  | ended => simpa [act, ht] using h ht

theorem left_act (hdown : dev.down = true) : (t.act dev).thread.left = t.left - 1 := by
  cases ht : t.phase with
  | looking => simp [act, ht, hdown, left]
  | ticking => simp [act, ht, left]
  | telling x => cases x <;> simp [act, ht, left, SoundPhase.after]
  | ended => simp [act, ht, left]

/-- Of the devices an act touches the timer at most. -/
theorem down_act : (t.act dev).devices.down = dev.down := by
  cases ht : t.phase with
  | looking => cases hdown : dev.down <;> simp [act, ht, hdown]
  | _ => simp [act, ht, Devices.tickSound]

/-- The values that are found count down. -/
theorem found_act (n : Nat) :
    Sign.found (t.act dev).signs ++ (t.act dev).devices.sound.values n =
      dev.sound.values ((Sign.found (t.act dev).signs).length + n) := by
  cases ht : t.phase with
  | looking => cases hdown : dev.down <;> simp [act, ht, hdown]
  | ticking =>
      simp only [act, ht, Sign.found_cons_value, Sign.found_nil, List.length_singleton,
        Nat.add_comm 1 n]
      rfl
  | _ => simp [act, ht]

end Act

end SoundThread

end Chip8
