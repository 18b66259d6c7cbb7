import Chip8.Proofs.SoundThread
import Chip8.Proofs.Timers

/-!
# The tone follows the sound timer

The loop of the sound timer takes its acts among processors and their
surroundings, in any order with theirs.  Three acts with nothing between them are
one turn of `SoundLoop.iterate` (`performAll_turn`).

One law governs what the loop tells (`signs_score`): with what is still due, it is
the score of what the loop saw, which answers each sight by the change that it
calls for.  The order of starts and stops, their number and their places are read
off the score.
-/

set_option autoImplicit false

namespace Chip8

/-! ## The surroundings -/

/-- The value that an instruction sets the sound timer to, if it sets it. -/
def Instruction.soundSet? (i : Instruction) (c : Cpu) : Option UInt8 :=
  match i with
  | .setSound x => some (c.reg x)
  | _ => none

theorem Instruction.timerAct_sound (i : Instruction) (c : Cpu) :
    i.timerAct? .sound c = (i.soundSet? c).map .set := by
  cases i <;> rfl

namespace Event

variable {ε : Type}

/-- The value that an event sets the sound timer to, if it sets it. -/
def soundSet? : Event ε → Option UInt8
  | .setSound v => some v
  | _ => none

theorem timerAct_sound {e : Event ε} (h : e ≠ .tickSound) :
    e.timerAct? .sound = e.soundSet?.map .set := by
  cases e with
  | tickSound => exact absurd rfl h
  | _ => rfl

end Event

namespace Ensemble

variable {ι ε : Type}

/-- The value that an act sets the sound timer to, if it sets it. -/
def soundSet? (s : Ensemble ι) (a : Act ι ε) : Option UInt8 :=
  match a, s.executes? a with
  | .event e, _ => e.soundSet?
  | _, some (_, _, i, c) => i.soundSet? c
  | _, none => none

/-- Whether an act leaves the sound timer alone. -/
def IsQuiet (s : Ensemble ι) (a : Act ι ε) : Prop :=
  s.soundSet? a = none ∧ a ≠ .event .tickSound

/-- Apart from its ticks, the sound timer is only ever set. -/
theorem timerAct_sound {s : Ensemble ι} {a : Act ι ε} (h : a ≠ .event .tickSound) :
    s.timerAct? .sound a = (s.soundSet? a).map .set := by
  rcases s.act_cases a with ⟨e, rfl⟩ | ⟨j, byte, i, c, hexec⟩ | ⟨hexec, hno⟩
  · exact Event.timerAct_sound fun he => h (congrArg Act.event he)
  · cases a with
    | event e => cases hexec
    | _ =>
        simp only [timerAct?, soundSet?, hexec]
        exact i.timerAct_sound c
  · cases a with
    | event e => exact absurd rfl (hno e)
    | _ => simp only [timerAct?, soundSet?, hexec, Option.map_none]

variable [DecidableEq ι] (o : ι → Options) {s : Ensemble ι} {a : Act ι ε}

theorem sound_perform (h : a ≠ .event .tickSound) :
    (s.perform o a).devices.sound = ((s.soundSet? a).map Countdown.mk).getD s.devices.sound := by
  have htimer := (timer_perform o .sound s a).1
  rw [timerAct_sound h] at htimer
  refine htimer.trans ?_
  cases s.soundSet? a <;> rfl

theorem sound_perform_of_set {v : UInt8} (h : s.soundSet? a = some v) :
    (s.perform o a).devices.sound = ⟨v⟩ := by
  rw [sound_perform o, h]
  · rfl
  · rintro rfl
    cases h

theorem sound_perform_of_isQuiet (h : s.IsQuiet a) :
    (s.perform o a).devices.sound = s.devices.sound := by
  rw [sound_perform o h.2, h.1]
  rfl

end Ensemble

/-! ## The loop among its surroundings -/

/-- The loop of the sound timer, among processors and their surroundings. -/
structure Concert (ι : Type) where
  thread : SoundThread
  ensemble : Ensemble ι

namespace Concert

variable {ι ε : Type}

/-- What can happen in a concert. -/
inductive Act (ι ε : Type) where
  /-- The loop takes its next act. -/
  | play
  /-- Others act. -/
  | other (a : Ensemble.Act ι ε)

/-- Whether this is an act of the loop. -/
def Act.isPlay : Act ι ε → Bool
  | .play => true
  | .other _ => false

/-- A loop that has not begun. -/
def start (e : Ensemble ι) : Concert ι :=
  ⟨.ofLoop .initial, e⟩

/-- What the loop sees or tells in an act. -/
def signsOf (s : Concert ι) : Act ι ε → List Sign
  | .play => (s.thread.act s.ensemble.devices).signs
  | .other _ => []

/-- The number of acts that the loop takes. -/
def plays (acts : List (Act ι ε)) : Nat :=
  acts.countP Act.isPlay

theorem plays_play (acts : List (Act ι ε)) : plays (.play :: acts) = plays acts + 1 :=
  List.countP_cons_of_pos rfl

theorem plays_other (a : Ensemble.Act ι ε) (acts : List (Act ι ε)) :
    plays (.other a :: acts) = plays acts :=
  List.countP_cons_of_neg (by simp [Act.isPlay])

variable [DecidableEq ι]

/-- The concert after an act. -/
def perform (o : ι → Options) (s : Concert ι) : Act ι ε → Concert ι
  | .play =>
    let action := s.thread.act s.ensemble.devices
    ⟨action.thread, { s.ensemble with devices := action.devices }⟩
  | .other a => { s with ensemble := s.ensemble.perform o a }

/-- The concert after several acts, in their order. -/
def performAll (o : ι → Options) (s : Concert ι) (acts : List (Act ι ε)) : Concert ι :=
  acts.foldl (fun t a => t.perform o a) s

/-- What the loop sees and tells in several acts, in its order. -/
def signs (o : ι → Options) : Concert ι → List (Act ι ε) → List Sign
  | _, [] => []
  | s, a :: acts => s.signsOf a ++ signs o (s.perform o a) acts

/-- Whether none of the others sets the sound timer or counts it down. -/
def Undisturbed (o : ι → Options) : Concert ι → List (Act ι ε) → Prop
  | _, [] => True
  | s, .play :: acts => Undisturbed o (s.perform o (.play : Act ι ε)) acts
  | s, .other a :: acts =>
    s.ensemble.IsQuiet a ∧ Undisturbed o (s.perform o (.other a)) acts

theorem performAll_cons (o : ι → Options) (s : Concert ι) (a : Act ι ε)
    (acts : List (Act ι ε)) : s.performAll o (a :: acts) = (s.perform o a).performAll o acts := rfl

section Run

variable (o : ι → Options) (s : Concert ι)

/-- What is true of no act, and of each act before others, is true of a run: of
the loop before it, what it saw and told, and the loop afterwards. -/
theorem run_induction {motive : SoundThread → List Sign → SoundThread → Prop}
    (hnil : ∀ t, motive t [] t)
    (hact : ∀ t dev signs t', motive (SoundThread.act t dev).thread signs t' →
      motive t ((SoundThread.act t dev).signs ++ signs) t')
    (acts : List (Act ι ε)) :
    motive s.thread (s.signs o acts) (s.performAll o acts).thread := by
  induction acts generalizing s with
  | nil => exact hnil s.thread
  | cons a acts ih =>
      cases a with
      | play => exact hact _ _ _ _ (ih (s.perform o (.play : Act ι ε)))
      | other a => exact ih (s.perform o (.other a))

variable (acts : List (Act ι ε))

/-- What was told, with what is still due, is what was due and the score of what
was seen. -/
theorem signs_score :
    s.signs o acts ++ (s.performAll o acts).thread.due =
      s.thread.due ++ Sign.score s.thread.settled (Sign.sights (s.signs o acts)) := by
  apply run_induction o s
    (motive := fun t signs t' =>
      signs ++ t'.due = t.due ++ Sign.score t.settled (Sign.sights signs))
  · intro t
    simp [Sign.score]
  · intro t dev signs t' h
    rw [List.append_assoc, h, t.score_act dev, Sign.sights_append]

theorem turns_calls :
    ToneCall.Turns s.thread.playing (Sign.calls (s.signs o acts))
      (s.performAll o acts).thread.playing := by
  apply run_induction o s
    (motive := fun t signs t' => ToneCall.Turns t.playing (Sign.calls signs) t'.playing)
  · intro t
    rfl
  · intro t dev signs t' h
    rw [Sign.calls_append]
    exact (t.turns_act dev).append h

/-- The loop sees values of the timer, and at last the news. -/
theorem sees_signs :
    s.thread.Sees (s.signs o acts) (s.performAll o acts).thread := by
  apply run_induction o s (motive := fun t signs t' => t.Sees signs t')
  · exact SoundThread.sees_nil
  · intro t dev signs t' h
    exact h.act

/-- A loop that has ended leaves no tone. -/
theorem silent_performAll (hsilent : s.thread.phase = .ended → s.thread.playing = false)
    (h : (s.performAll o acts).thread.phase = .ended) :
    (s.performAll o acts).thread.playing = false := by
  have hrun := run_induction o s
    (motive := fun t _ t' => (t.phase = .ended → t.playing = false) →
      t'.phase = .ended → t'.playing = false)
    (fun _ h => h) (fun t dev _ _ h hnow => h (t.silent_act dev hnow)) acts
  exact hrun hsilent h

end Run

/-! ## Headway -/

section Headway

variable (o : ι → Options) (s : Concert ι)

theorem down_perform {a : Act ι ε} (h : s.ensemble.devices.down = true) :
    (s.perform o a).ensemble.devices.down = true := by
  cases a with
  | play => exact (s.thread.down_act s.ensemble.devices).trans h
  | other a => exact (s.ensemble.down_perform_iff o a).mpr (Or.inl h)

theorem down_performAll (acts : List (Act ι ε)) (h : s.ensemble.devices.down = true) :
    (s.performAll o acts).ensemble.devices.down = true := by
  induction acts generalizing s with
  | nil => exact h
  | cons a acts ih => exact ih (s.perform o a) (down_perform o s h)

/-- While the run goes on, three acts are a turn. -/
theorem taken_performAll (acts : List (Act ι ε)) (hover : s.thread.isOver = false)
    (hdown : (s.performAll o acts).ensemble.devices.down = false) :
    s.thread.taken + plays acts =
      (s.performAll o acts).thread.taken + 3 * (Sign.found (s.signs o acts)).length := by
  induction acts generalizing s with
  | nil => rfl
  | cons a acts ih =>
      cases a with
      | play =>
          have hnow : s.ensemble.devices.down = false := by
            by_contra hnews
            have hend := down_performAll o s (.play :: acts) (eq_true_of_ne_false hnews)
            rw [hdown] at hend
            cases hend
          have hturn := s.thread.taken_act s.ensemble.devices hnow hover
          have hrest := ih (s.perform o (.play : Act ι ε))
            (s.thread.isOver_act s.ensemble.devices hnow hover) hdown
          rw [plays_play, signs, Sign.found_append, List.length_append]
          simp only [perform, signsOf] at hrest ⊢
          simp only [performAll_cons, perform]
          omega
      | other a =>
          rw [plays_other]
          exact ih (s.perform o (.other a)) hover hdown

/-- After the news the loop ends. -/
theorem left_performAll (acts : List (Act ι ε)) (h : s.ensemble.devices.down = true) :
    (s.performAll o acts).thread.left = s.thread.left - plays acts := by
  induction acts generalizing s with
  | nil => rfl
  | cons a acts ih =>
      have hrest := ih (s.perform o a) (down_perform o s h)
      cases a with
      | play =>
          have hact := s.thread.left_act s.ensemble.devices h
          rw [plays_play, performAll_cons, hrest]
          simp only [perform, hact]
          omega
      | other a =>
          rw [plays_other]
          exact hrest

end Headway

/-! ## Runs that are not disturbed -/

section Undisturbed

variable (o : ι → Options) (s : Concert ι) (acts : List (Act ι ε))

/-- The values that are found count down. -/
theorem found_of_undisturbed (h : Undisturbed o s acts) :
    Sign.found (s.signs o acts) =
      s.ensemble.devices.sound.values (Sign.found (s.signs o acts)).length := by
  induction acts generalizing s with
  | nil => rfl
  | cons a acts ih =>
      cases a with
      | play =>
          have hrest := ih (s.perform o (.play : Act ι ε)) h
          rw [signs, Sign.found_append, List.length_append]
          exact (congrArg _ hrest).trans (s.thread.found_act s.ensemble.devices _)
      | other a =>
          have hrest := ih (s.perform o (.other a)) h.2
          exact hrest.trans (congrArg _ (Ensemble.sound_perform_of_isQuiet o h.1))

/-- What the loop sees and tells while the timer, set to `v`, counts down to zero. -/
theorem signs_of_set {a : Ensemble.Act ι ε} {v : UInt8} (hoff : s.thread.playing = false)
    (hset : s.ensemble.soundSet? a = some v) (hv : v ≠ 0)
    (hquiet : Undisturbed o (s.perform o (.other a)) acts)
    (hfound : (Sign.found ((s.perform o (.other a)).signs o acts)).length = v.toNat + 1)
    (hlooks : ((s.perform o (.other a)).performAll o acts).thread.phase = .looking) :
    (s.perform o (.other a)).signs o acts =
      (if s.thread.settled then [.told .start, .saw (.value v)]
        else [.saw (.value v), .told .start]) ++
      (Countdown.below v.toNat).map (fun b => .saw (.value b)) ++ [.told .stop] := by
  have hsound : (s.perform o (.other a)).ensemble.devices.sound = ⟨v⟩ :=
    Ensemble.sound_perform_of_set o hset
  have hvalues := found_of_undisturbed o _ acts hquiet
  rw [hfound, hsound, Countdown.values_to_zero] at hvalues
  have hend : ((s.perform o (.other a)).performAll o acts).thread.isOver = false := by
    simp only [SoundThread.isOver, hlooks]
  have hdue : ((s.perform o (.other a)).performAll o acts).thread.due = [] := by
    simp only [SoundThread.due, SoundThread.settled, hlooks, Sign.change_self]
  have hgoes : (s.perform o (.other a)).thread.isOver = false := by
    by_contra hover
    have hnone := ((sees_signs o _ acts).nothing (eq_true_of_ne_false hover)).2
    rw [hend] at hnone
    cases hnone
  have hsights := (sees_signs o _ acts).values hgoes
  rw [hend, hvalues] at hsights
  have hscore := signs_score o (s.perform o (.other a)) acts
  rw [hdue, List.append_nil, hsights] at hscore
  have hwants : Sight.wants (.value v) = true := bne_iff_ne.mpr hv
  have hpos : 0 < v.toNat := Nat.pos_of_ne_zero fun hzero => hv (UInt8.toNat_inj.mp hzero)
  rw [hscore]
  simp only [List.map_cons, Bool.false_eq_true, ↓reduceIte, List.append_nil, Sign.score, hwants]
  rw [Sign.score_to_zero hpos (Nat.le_of_lt v.toNat_lt)]
  simp only [perform, SoundThread.due, hoff]
  cases s.thread.settled <;> rfl

end Undisturbed

/-! ## The tone -/

section Tone

/-- Three acts with nothing between them are a turn of the loop. -/
theorem performAll_turn (o : ι → Options) (l : SoundLoop) (e : Ensemble ι) :
    (⟨.ofLoop l, e⟩ : Concert ι).performAll o [.play, .play, (.play : Act ι ε)] =
        ⟨.ofLoop (l.iterate e.devices).1, { e with devices := (l.iterate e.devices).2.1 }⟩ ∧
      Sign.calls ((⟨.ofLoop l, e⟩ : Concert ι).signs o [.play, .play, (.play : Act ι ε)]) =
        (l.iterate e.devices).2.2 := by
  cases hended : l.ended with
  | true =>
      simp [performAll, signs, signsOf, perform, SoundThread.act, SoundThread.ofLoop,
        SoundLoop.iterate, hended]
  | false =>
      cases hdown : e.devices.down <;>
        simp [performAll, signs, signsOf, perform, SoundThread.act, SoundThread.ofLoop,
          SoundLoop.iterate, SoundPhase.after, Sight.wants, Devices.tickSound, Countdown.tick,
          hended, hdown]

/-- When the loop has ended, what it told are the changes in what it found. -/
theorem calls_of_ended (o : ι → Options) (e : Ensemble ι) (acts : List (Act ι ε))
    (h : ((start e).performAll o acts).thread.phase = .ended) :
    Sign.calls ((start e).signs o acts) =
      ToneCall.changes (0 :: Sign.found ((start e).signs o acts) ++ [0]) := by
  have hover : ((start e).performAll o acts).thread.isOver = true := by
    simp only [SoundThread.isOver, h]
  have hdue : ((start e).performAll o acts).thread.due = [] := by
    simp only [SoundThread.due, SoundThread.settled, h, Sign.change_self]
  have hsights := (sees_signs o (start e) acts).values rfl
  rw [hover] at hsights
  have hscore := signs_score o (start e) acts
  rw [hdue, List.append_nil, hsights] at hscore
  exact (congrArg Sign.calls hscore).trans (Sign.calls_score 0 _)

/-- **The tone follows the sound timer.**  The loop that counts the sound timer
down takes its acts among processors and their surroundings, in any order with
theirs: three acts in a row are a turn of the loop.

The values at which it finds the timer, between two zeros, change from zero to
non-zero and back: once the loop has ended, it has told a start for each change of
the first kind and a stop for each of the second, in this order.  At all times
starts and stops take turns, a start is the first, and there are as many starts as
stops or one more; at the end there are as many.

The loop goes on while the run does, and ends soon after it.  If the timer is set
while the tone is off, and then left alone, the start follows the first value
found, the stop follows the zero, and nothing is told between them.  Only if an
earlier value was about to be answered does the start come before the first
value. -/
theorem tone_follows_timer (o : ι → Options) (e : Ensemble ι) (acts : List (Act ι ε)) :
    (∀ (l : SoundLoop) (e : Ensemble ι),
      (⟨.ofLoop l, e⟩ : Concert ι).performAll o [.play, .play, (.play : Act ι ε)] =
          ⟨.ofLoop (l.iterate e.devices).1, { e with devices := (l.iterate e.devices).2.1 }⟩ ∧
        Sign.calls ((⟨.ofLoop l, e⟩ : Concert ι).signs o [.play, .play, (.play : Act ι ε)]) =
          (l.iterate e.devices).2.2) ∧
    (((start e).performAll o acts).thread.phase = .ended →
      Sign.calls ((start e).signs o acts) =
          ToneCall.changes (0 :: Sign.found ((start e).signs o acts) ++ [0]) ∧
        (Sign.calls ((start e).signs o acts)).count .start =
          (Sign.calls ((start e).signs o acts)).count .stop) ∧
    ((Sign.calls ((start e).signs o acts)).IsChain (· ≠ ·) ∧
      (∀ c ∈ (Sign.calls ((start e).signs o acts)).head?, c = .start) ∧
      (Sign.calls ((start e).signs o acts)).count .stop ≤
        (Sign.calls ((start e).signs o acts)).count .start ∧
      (Sign.calls ((start e).signs o acts)).count .start ≤
        (Sign.calls ((start e).signs o acts)).count .stop + 1) ∧
    (∀ (s : Concert ι) (more : List (Act ι ε)) (n : Nat), s.thread.phase = .looking →
      (s.performAll o more).ensemble.devices.down = false → plays more = 3 * n →
      (s.performAll o more).thread.phase = .looking ∧
        (Sign.found (s.signs o more)).length = n) ∧
    (∀ (s : Concert ι) (more : List (Act ι ε)), s.ensemble.devices.down = true →
      4 ≤ plays more → (s.performAll o more).thread.phase = .ended) ∧
    (∀ (s : Concert ι) (a : Ensemble.Act ι ε) (v : UInt8) (more : List (Act ι ε)),
      s.thread.playing = false → s.ensemble.soundSet? a = some v → v ≠ 0 →
      Undisturbed o (s.perform o (.other a)) more →
      (Sign.found ((s.perform o (.other a)).signs o more)).length = v.toNat + 1 →
      ((s.perform o (.other a)).performAll o more).thread.phase = .looking →
      (s.perform o (.other a)).signs o more =
        (if s.thread.settled then [.told .start, .saw (.value v)]
          else [.saw (.value v), .told .start]) ++
        (Countdown.below v.toNat).map (fun b => .saw (.value b)) ++ [.told .stop]) := by
  have hturns := turns_calls o (start e) acts
  have hcount := hturns.count
  have hnone : (start e).thread.playing.toNat = 0 := rfl
  refine ⟨performAll_turn o, ?_, ?_, ?_, ?_, ?_⟩
  · intro hended
    refine ⟨calls_of_ended o e acts hended, ?_⟩
    have hsilent := silent_performAll o (start e) acts (fun _ => rfl) hended
    rw [hsilent, hnone] at hcount
    exact hcount
  · have hone := ((start e).performAll o acts).thread.playing.toNat_le
    refine ⟨hturns.isChain, ?_, by omega, by omega⟩
    intro c hc
    have hfirst := hturns.head hc
    cases c with
    | start => rfl
    | stop => exact absurd rfl hfirst
  · intro s more n hlooks hdown hplays
    have hgoes : s.thread.isOver = false := by simp only [SoundThread.isOver, hlooks]
    have hturn := taken_performAll o s more hgoes hdown
    have htaken : s.thread.taken = 1 := by simp only [SoundThread.taken, hlooks]
    rw [htaken, hplays] at hturn
    exact SoundThread.looking_of_taken hturn
  · intro s more hdown hplays
    have hleft := left_performAll o s more hdown
    have hmost := s.thread.left_le
    exact SoundThread.ended_of_left (by omega)
  · intro s a v more hoff hset hv hquiet hfound hlooks
    exact signs_of_set o s more hoff hset hv hquiet hfound hlooks

/-- Nobody runs a program. -/
def stage : Ensemble Unit :=
  .start (fun _ => .initial) .initial

/-- Three turns of the loop, and a tick of the other timer in the middle of them. -/
def threeTurns : List (Act Unit Unit) :=
  List.replicate 4 .play ++ .other (.event .tickDelay) :: List.replicate 5 .play

/-- A turn, a tone of two units, and a tone in which the run is over. -/
def tune : List (Act Unit Unit) :=
  List.replicate 3 .play ++ .other (.event (.setSound 2)) :: threeTurns ++
    [.other (.event (.setSound 7)), .play, .play, .other (.event .announce)]

/-- The same until the loop has ended. -/
def medley : List (Act Unit Unit) :=
  tune ++ List.replicate 4 .play

theorem tone_follows_timer_medley :
    Sign.found ((start stage).signs (fun _ => .standard) medley) = [0, 2, 1, 0, 7] ∧
      Sign.calls ((start stage).signs (fun _ => .standard) medley) =
        ToneCall.changes [0, 0, 2, 1, 0, 7, 0] ∧
      ToneCall.changes [0, 0, 2, 1, 0, 7, 0] = [.start, .stop, .start, .stop] ∧
      ((start stage).performAll (fun _ => .standard) threeTurns).thread.phase = .looking ∧
      ((start stage).performAll (fun _ => .standard) medley).thread.phase = .ended ∧
      ((start stage).perform (fun _ => .standard) (.other (.event (.setSound 2)) :
          Act Unit Unit)).signs (fun _ => .standard) threeTurns =
        [.saw (.value 2), .told .start, .saw (.value 1), .saw (.value 0), .told .stop] := by
  obtain ⟨-, hend, -, hturns, hnews, hset⟩ :=
    tone_follows_timer (ε := Unit) (fun _ => .standard) stage medley
  have hfound : Sign.found ((start stage).signs (fun _ => .standard) medley) =
      [0, 2, 1, 0, 7] := by decide
  have hended : ((start stage).performAll (fun _ => .standard) medley).thread.phase = .ended :=
    hnews ((start stage).performAll (fun _ => .standard) tune) (List.replicate 4 .play) rfl
      (by decide)
  have hcalls := (hend hended).1
  rw [hfound] at hcalls
  have hquiet : Undisturbed (fun _ => .standard) ((start stage).perform (fun _ => .standard)
      (.other (.event (.setSound 2)) : Act Unit Unit)) threeTurns := ⟨⟨rfl, nofun⟩, trivial⟩
  exact ⟨hfound, hcalls, by decide, (hturns (start stage) threeTurns 3 rfl rfl rfl).1, hended,
    hset (start stage) (.event (.setSound 2)) 2 threeTurns rfl rfl (by decide) hquiet (by decide)
      (by decide)⟩

end Tone

end Concert

end Chip8
