import Chip8.Proofs.Boundary
import Chip8.Proofs.Ensemble

/-!
# The end of a run is final

A run is ended by setting two flags, and different code reads them: a runner
looks for the news between two instructions, and whoever waits for a key looks
whether the queue is closed.  Each flag is set by one event and taken back by
nothing (`down_performAll`, `closed_performAll`), so once both are set they stay
set, whatever processors and surroundings still do.

From then on a runner that looks ends, and a wait for a key is given up at once,
again and again, for keys that are still queued are not looked at.  No other
instruction reads either flag (`step_withFlags`).

The news may be given by many, and is told once: telling and the flag together
keep their count (`count_told_perform`).
-/

set_option autoImplicit false

namespace Chip8

/-! ## The two flags -/

namespace Devices

/-- The run is over: the news was given, and the queue of keys is closed. -/
def IsOver (d : Devices) : Prop :=
  d.down = true ∧ d.keys.closed = true

/-- The devices with other values of the two flags that end a run. -/
def withFlags (d : Devices) (down closed : Bool) : Devices :=
  { d with down := down, keys := { d.keys with closed := closed } }

/-- The same devices while a run goes on. -/
def reopened (d : Devices) : Devices :=
  d.withFlags false false

theorem IsOver.withFlags_reopened {d : Devices} (h : d.IsOver) :
    d.reopened.withFlags true true = d := by
  obtain ⟨screen, delay, sound, ⟨keys, closed⟩, down⟩ := d
  obtain ⟨rfl, rfl⟩ := h
  rfl

end Devices

theorem KeyQueue.popIf_withClosed (q : KeyQueue) (closed : Bool) (b : UInt8) :
    ({ q with closed := closed } : KeyQueue).popIf b =
      ((q.popIf b).1, { (q.popIf b).2 with closed := closed }) := by
  rcases popIf_cases q b with ⟨k, ks, hkeys, hcode, h⟩ | ⟨hother, h⟩
  · rw [h]
    simp only [popIf, hkeys, hcode, ↓reduceIte]
  · rcases popIf_cases { q with closed := closed } b with ⟨k, ks, hkeys, hcode, -⟩ | ⟨-, h'⟩
    · have hfront : q.front?.map Key.code = some b := by
        have hq : q.keys = k :: ks := hkeys
        simp only [front?, hq, List.head?_cons, Option.map_some, hcode]
      exact absurd hfront hother
    · rw [h, h']

section Step

variable (o : Options) (byte : UInt8) {i : Instruction} {c : Cpu} (d : Devices)
  (down closed : Bool)

/-- An instruction that does not wait for a key reads neither flag. -/
theorem execute_withFlags (h : ∀ x, i ≠ .waitKey x) :
    execute o byte i c (d.withFlags down closed) =
      { execute o byte i c d with
        devices := (execute o byte i c d).devices.withFlags down closed } := by
  cases i with
  | waitKey x => exact absurd rfl (h x)
  | skipKey x =>
      simp only [execute, Devices.withFlags, KeyQueue.popIf_withClosed]
  | ret | call a | draw x y rows | storeDigits x | storeRegisters x | loadRegisters x =>
      simp only [execute, Devices.withFlags]
      split <;> rfl
  | _ => rfl

/-- A step at any other instruction reads neither flag, nor does one that finds
no instruction. -/
theorem step_withFlags (h : ∀ x, c.current ≠ .ok (.waitKey x)) :
    step o byte c (d.withFlags down closed) =
      ⟨{ (step o byte c d).effect with
          devices := (step o byte c d).effect.devices.withFlags down closed },
        (step o byte c d).log⟩ := by
  cases hfetch : c.fetch with
  | error e => simp only [step_of_fetch_error hfetch]
  | ok w =>
      cases hword : Instruction.ofWord w with
      | error e => simp only [step_of_invalid_word hfetch hword]
      | ok i =>
          have hcurrent : c.current = .ok i := by simp only [Cpu.current, hfetch, hword]
          have hother : ∀ x, i ≠ .waitKey x := by
            rintro x rfl
            exact h x hcurrent
          simp only [step_of_current hcurrent, execute_withFlags o byte d down closed hother]

end Step

/-! ## Who sets them -/

namespace Event

variable {ε : Type}

/-- What there is to tell about an event. -/
def told (e : Event ε) (d : Devices) : List Notice :=
  match e with
  | .announce => d.announce.2
  | _ => []

/-- The news is told by the event that finds it not yet given. -/
theorem count_told (e : Event ε) (d : Devices) :
    (e.told d).count .shuttingDown + d.down.toNat = (e.apply d).down.toNat := by
  cases e with
  | announce =>
      simp only [told, apply, Devices.announce]
      cases d.down <;> rfl
  | _ => exact Nat.zero_add _

end Event

/-- A runner tells which instruction it executes, and nothing else. -/
theorem Runner.shuttingDown_not_mem_log (o : Options) (byte : UInt8) (r : Runner) (d : Devices) :
    .shuttingDown ∉ (r.advance o byte d).log := by
  unfold Runner.advance
  cases r.phase with
  | stepping =>
      rcases step_cases o byte r.cpu d with
        ⟨e, -, -, h⟩ | ⟨w, e, -, -, h⟩ | ⟨w, i, -, -, h⟩ <;> simp [h, Action.ofEffect]
  | _ => simp [Action.ofEffect]

namespace Ensemble

variable {ι ε : Type} [DecidableEq ι] (o : ι → Options)

/-- What there is to tell about an act. -/
def told (s : Ensemble ι) (a : Act ι ε) : List Notice :=
  match a with
  | .advance j byte => ((s.runners j).advance (o j) byte s.devices).log
  | .event e => e.told s.devices
  | _ => []

/-- What there is to tell about several acts, in their order. -/
def toldAll : Ensemble ι → List (Act ι ε) → List Notice
  | _, [] => []
  | s, a :: acts => s.told o a ++ toldAll (s.perform o a) acts

/-- Someone ends the run in the course of the acts: they give the news, and some
time later they close the queue of keys. -/
def EndsRun (acts : List (Act ι ε)) : Prop :=
  [.event .announce, .event .closeKeys].Sublist acts

section Flags

variable (s : Ensemble ι)

/-- The news is given after some acts if it was before, or if one of them gives it. -/
theorem down_performAll (acts : List (Act ι ε)) :
    (s.performAll o acts).devices.down = true ↔
      s.devices.down = true ∨ .event .announce ∈ acts := by
  induction acts generalizing s with
  | nil => simp [performAll]
  | cons a acts ih =>
      rw [performAll_cons, ih, down_perform_iff, List.mem_cons, or_assoc]
      simp only [eq_comm]

theorem closed_performAll (acts : List (Act ι ε)) :
    (s.performAll o acts).devices.keys.closed = true ↔
      s.devices.keys.closed = true ∨ .event .closeKeys ∈ acts := by
  induction acts generalizing s with
  | nil => simp [performAll]
  | cons a acts ih =>
      rw [performAll_cons, ih, closed_perform_iff, List.mem_cons, or_assoc]
      simp only [eq_comm]

/-- Once someone has ended the run, it is over. -/
theorem isOver_of_endsRun {acts : List (Act ι ε)} (h : EndsRun acts) :
    (s.performAll o acts).devices.IsOver := by
  have hannounce : .event .announce ∈ acts := h.subset (by simp)
  have hclose : .event .closeKeys ∈ acts := h.subset (by simp)
  exact ⟨(s.down_performAll o acts).mpr (Or.inr hannounce),
    (s.closed_performAll o acts).mpr (Or.inr hclose)⟩

omit [DecidableEq ι] in
theorem count_told_of_not_event {a : Act ι ε} (h : ∀ e, a ≠ .event e) :
    (s.told o a).count .shuttingDown = 0 := by
  rw [List.count_eq_zero]
  cases a with
  | advance j byte => exact (s.runners j).shuttingDown_not_mem_log (o j) byte s.devices
  | event e => exact absurd rfl (h e)
  | demand j => exact List.not_mem_nil
  | impose j byte i => exact List.not_mem_nil

/-- What is told and whether it is known keep their count: the news is told by
the act that makes it known. -/
theorem count_told_perform (a : Act ι ε) :
    (s.told o a).count .shuttingDown + s.devices.down.toNat =
      (s.perform o a).devices.down.toNat := by
  by_cases hevent : ∃ e, a = .event e
  · obtain ⟨e, rfl⟩ := hevent
    exact e.count_told s.devices
  · have hno : ∀ e, a ≠ .event e := fun e he => hevent ⟨e, he⟩
    rw [(flags_perform_of_not_event o hno).1, s.count_told_of_not_event o hno, Nat.zero_add]

theorem count_toldAll (acts : List (Act ι ε)) :
    (s.toldAll o acts).count .shuttingDown + s.devices.down.toNat =
      (s.performAll o acts).devices.down.toNat := by
  induction acts generalizing s with
  | nil => exact Nat.zero_add _
  | cons a acts ih =>
      have hact := s.count_told_perform o a
      have hrest := ih (s.perform o a)
      rw [toldAll, List.count_append, performAll_cons]
      omega

end Flags

/-! ## After the end -/

section Over

variable {s : Ensemble ι} {j : ι} {x : Register}

/-- The run is over, and the runner stands at a wait for a key, which it has not
begun. -/
structure Stranded (s : Ensemble ι) (j : ι) (x : Register) : Prop where
  isOver : s.devices.IsOver
  idle : (s.runners j).isWaiting = false
  current : (s.runners j).cpu.current = .ok (.waitKey x)

omit [DecidableEq ι] in
/-- A runner that tries to wait after the end of the run stands where it stood,
and has taken no key. -/
theorem Stranded.advance (h : s.Stranded j x) (byte : UInt8) :
    ((s.runners j).advance (o j) byte s.devices).runner.cpu = (s.runners j).cpu ∧
      ((s.runners j).advance (o j) byte s.devices).runner.isWaiting = false ∧
      ((s.runners j).advance (o j) byte s.devices).devices = s.devices := by
  cases hr : (s.runners j).phase with
  | checking =>
      simp only [Runner.advance, hr, h.isOver.1, ↓reduceIte, Runner.isWaiting, and_self]
  | stepping =>
      simp only [Runner.advance, hr, step_of_closed h.isOver.2 h.current]
      exact ⟨rfl, rfl, rfl⟩
  | waiting y =>
      have hidle := h.idle
      simp [Runner.isWaiting, hr] at hidle
  | ended f =>
      have hended : (s.runners j).hasEnded = true := by simp only [Runner.hasEnded, hr]
      rw [Runner.advance_of_hasEnded hended]
      exact ⟨rfl, h.idle, rfl⟩

theorem Stranded.perform (h : s.Stranded j x) {a : Act ι ε}
    (ha : ∀ byte i, a ≠ .impose j byte i) :
    (s.perform o a).Stranded j x ∧ ((s.perform o a).runners j).cpu = (s.runners j).cpu := by
  have hover : (s.perform o a).devices.IsOver :=
    ⟨(s.down_perform_iff o a).mpr (Or.inl h.isOver.1),
      (s.closed_perform_iff o a).mpr (Or.inl h.isOver.2)⟩
  -- It suffices that the runner keeps its processor and does not begin to wait.
  suffices hkeeps : ((s.perform o a).runners j).cpu = (s.runners j).cpu ∧
      ((s.perform o a).runners j).isWaiting = false by
    refine ⟨⟨hover, hkeeps.2, ?_⟩, hkeeps.1⟩
    rw [hkeeps.1]
    exact h.current
  by_cases hactor : a.actor? = some j
  · cases a with
    | event e => cases hactor
    | impose k byte i =>
        obtain rfl := Option.some.inj hactor
        exact absurd rfl (ha byte i)
    | advance k byte =>
        obtain rfl := Option.some.inj hactor
        obtain ⟨hcpu, hidle, -⟩ := h.advance o byte
        simp only [perform, runners_setRunner]
        exact ⟨hcpu, hidle⟩
    | demand k =>
        obtain rfl := Option.some.inj hactor
        have hset : s.perform o (.demand k : Act ι ε) =
            s.setRunner k { s.runners k with phase := .stepping } := by
          simp only [Ensemble.perform, h.idle, Bool.false_eq_true, ↓reduceIte]
        rw [hset, runners_setRunner]
        exact ⟨rfl, rfl⟩
  · rw [runners_perform_of_ne o hactor]
    exact ⟨rfl, h.idle⟩

/-- Whatever the others do, a runner at a wait for a key gets no further by its
own steps. -/
theorem Stranded.performAll (h : s.Stranded j x) {acts : List (Act ι ε)}
    (hacts : ∀ byte i, .impose j byte i ∉ acts) :
    (s.performAll o acts).Stranded j x ∧
      ((s.performAll o acts).runners j).cpu = (s.runners j).cpu := by
  induction acts generalizing s with
  | nil => exact ⟨h, rfl⟩
  | cons a acts ih =>
      have hfirst : ∀ byte i, a ≠ .impose j byte i := by
        rintro byte i rfl
        exact hacts byte i List.mem_cons_self
      obtain ⟨hnext, hcpu⟩ := h.perform o hfirst
      obtain ⟨hlast, hsame⟩ := ih hnext fun byte i hmem =>
        hacts byte i (List.mem_cons_of_mem a hmem)
      exact ⟨hlast, hsame.trans hcpu⟩

end Over

/-- **The end of a run is final.**  Processors, timers, viewers and those who
press keys do what they like, in any order, and someone ends the run in the
course of it.  From then on, whatever is done after that, the run stays over.

A run that is begun ends without a fault at its first look, and nothing has
changed.  A step at a wait for a key is carried out and leaves everything as it
was, the program counter and the pending keys too; so a runner that stands there
stays there however often it tries, and does not begin to wait.  A step at
anything else comes to what it would come to while the run goes on.

If the run was not over in the beginning, its end is told exactly once. -/
theorem end_of_run_is_final (o : ι → Options) (s t : Ensemble ι) (acts : List (Act ι ε))
    (hend : EndsRun acts) (ht : s.performAll o acts = t) :
    (t.devices.down = true ∧ t.devices.keys.closed = true) ∧
    (∀ (op : Options) byte (c : Cpu),
      (Runner.start c).advance op byte t.devices = ⟨⟨c, .ended none⟩, t.devices, []⟩) ∧
    (∀ (op : Options) byte (c : Cpu) x, c.current = .ok (.waitKey x) →
      (step op byte c t.devices).effect = ⟨.done, c, t.devices⟩) ∧
    (∀ j x (later : List (Act ι ε)), (t.runners j).isWaiting = false →
      (t.runners j).cpu.current = .ok (.waitKey x) → (∀ byte i, .impose j byte i ∉ later) →
        ((t.performAll o later).runners j).cpu = (t.runners j).cpu ∧
          ((t.performAll o later).runners j).isWaiting = false) ∧
    (∀ (op : Options) byte (c : Cpu), (∀ x, c.current ≠ .ok (.waitKey x)) →
      step op byte c t.devices =
        ⟨{ (step op byte c t.devices.reopened).effect with
            devices := (step op byte c t.devices.reopened).effect.devices.withFlags true true },
          (step op byte c t.devices.reopened).log⟩) ∧
    (s.devices.down = false → (s.toldAll o acts).count .shuttingDown = 1) := by
  have hover : t.devices.IsOver := ht ▸ s.isOver_of_endsRun o hend
  refine ⟨hover, ?_, ?_, ?_, ?_, ?_⟩
  · intro op byte c
    simp only [Runner.start, Runner.advance, hover.1, ↓reduceIte]
  · intro op byte c x hcurrent
    exact step_of_closed hover.2 hcurrent
  · intro j x later hidle hcurrent hsteps
    have hstranded : t.Stranded j x := ⟨hover, hidle, hcurrent⟩
    obtain ⟨hlast, hcpu⟩ := hstranded.performAll o hsteps
    exact ⟨hcpu, hlast.idle⟩
  · intro op byte c hother
    have hflags := step_withFlags op byte t.devices.reopened true true hother
    rwa [hover.withFlags_reopened] at hflags
  · intro hgoing
    have hcount := s.count_toldAll o acts
    rw [ht, hgoing, hover.1] at hcount
    exact hcount

/-- A processor at a wait for a key, and one that strayed to where no word is left. -/
def latecomers : Ensemble Bool :=
  start (fun j => if j then Scene.strayed else Scene.awaiting) .initial

/-- Two threads end the run at the same time, and a key is pressed in between. -/
def farewell : List (Act Bool Unit) :=
  [.event .announce, .event (.press (.ofByte 5)), .event .announce, .event .closeKeys,
    .event .closeKeys]

/-- `end_of_run_is_final` for a processor that goes on trying to take the key that
was pressed, and for one that faults. -/
theorem end_of_run_is_final_latecomers :
    (latecomers.toldAll (fun _ => .standard) farewell).count .shuttingDown = 1 ∧
      (latecomers.performAll (fun _ => .standard) farewell).devices.keys = ⟨[.ofByte 5], true⟩ ∧
      (step .standard 0 Scene.awaiting
        (latecomers.performAll (fun _ => .standard) farewell).devices).effect =
          ⟨.done, Scene.awaiting,
            (latecomers.performAll (fun _ => .standard) farewell).devices⟩ ∧
      (((latecomers.performAll (fun _ => .standard) farewell).performAll (fun _ => .standard)
        ([.demand false, .advance false 0, .advance false 0, .demand false, .advance false 0] :
          List (Act Bool Unit))).runners false).cpu = Scene.awaiting ∧
      (step .standard 0 Scene.strayed
        (latecomers.performAll (fun _ => .standard) farewell).devices).effect.outcome =
          .fault (.address ⟨0x1000⟩) := by
  have hends : EndsRun farewell :=
    .cons_cons _ (.cons _ (.cons _ (.cons_cons _ (.cons _ .slnil))))
  obtain ⟨-, -, hwait, hstays, hother, htold⟩ :=
    end_of_run_is_final (fun _ => .standard) latecomers _ farewell hends rfl
  have hstray : Scene.strayed.current = .error (.address ⟨0x1000⟩) := rfl
  have hnot : ∀ x, Scene.strayed.current ≠ .ok (.waitKey x) := by
    rw [hstray]
    intro x hx
    cases hx
  refine ⟨htold rfl, rfl, hwait _ _ _ _ Scene.current_awaiting, ?_, ?_⟩
  · exact (hstays false _ _ rfl Scene.current_awaiting (by simp)).1
  · rw [hother .standard 0 _ hnot]
    exact outcome_of_current_error hstray

end Ensemble

end Chip8
