import Chip8.Proofs.Actions

/-!
# A run ends between two instructions

A runner takes several actions for an instruction that waits for a key, and its
surroundings act in between.  Seen from outside, it nevertheless executes whole
instructions only: `WholeSteps` is a run in which every step is completed at
once, and each run of a `Scene` is one of those, with the same events in the
same order.  The steps are a selection of the runner's own actions
(`Sublist`), so they use the same random bytes.

A wait that is given up is no step.  Nothing comes after it: the queue is closed
only by someone who has given the news before, so the runner ends where it looks
next.
-/

set_option autoImplicit false

namespace Chip8

/-! ## Runs -/

/-- A runner and the devices that it shares with its surroundings.  Those who
have given the news that the run is over, and still have to close the queue of
keys, are counted by `closing`. -/
structure Scene where
  runner : Runner
  devices : Devices
  closing : Nat

namespace Scene

/-- What happens next: the runner acts, with this random byte at hand, or its
surroundings do. -/
inductive Act (ε : Type) where
  | run (byte : UInt8)
  | event (e : Event ε)

variable {ε : Type}

def Act.event? : Act ε → Option (Event ε)
  | .run _ => none
  | .event e => some e

/-- What the surroundings did. -/
def events (tr : List (Act ε)) : List (Event ε) :=
  tr.filterMap Act.event?

/-- How many still have to close the queue after an event.  Nobody closes it who
has not given the news. -/
def closingAfter : Event ε → Nat → Option Nat
  | .announce, n => some (n + 1)
  | .closeKeys, 0 => none
  | .closeKeys, n + 1 => some n
  | _, n => some n

/-- The scene after an act, if the act is possible. -/
def next? (o : Options) (a : Act ε) (s : Scene) : Option Scene :=
  match a with
  | .run byte =>
    let action := s.runner.advance o byte s.devices
    some { s with runner := action.runner, devices := action.devices }
  | .event e =>
    (closingAfter e s.closing).map fun closing =>
      { s with devices := e.apply s.devices, closing }

/-- The scene after several acts, in their order. -/
def run? (o : Options) : List (Act ε) → Scene → Option Scene
  | [], s => some s
  | a :: tr, s => (s.next? o a).bind (run? o tr)

theorem run?_append (o : Options) (tr tr' : List (Act ε)) (s : Scene) :
    s.run? o (tr ++ tr') = (s.run? o tr).bind (run? o tr') := by
  induction tr generalizing s with
  | nil => rfl
  | cons a tr ih =>
      simp only [List.cons_append, run?, Option.bind_assoc]
      exact congrArg _ (funext ih)

/-- A runner that is about to look whether the run is over. -/
def start (cpu : Cpu) (dev : Devices) (closing : Nat) : Scene :=
  ⟨.start cpu, dev, closing⟩

/-- Whole steps and events: each step of the list is completed at once. -/
inductive WholeSteps (o : Options) :
    List (Act ε) → Cpu → Devices → Cpu → Devices → Prop
  | nil (c : Cpu) (d : Devices) : WholeSteps o [] c d c d
  | step {byte tr c d c' d'} : Completes o byte c d →
      WholeSteps o tr (step o byte c d).effect.cpu (step o byte c d).effect.devices c' d' →
      WholeSteps o (.run byte :: tr) c d c' d'
  | event {e tr c d c' d'} : WholeSteps o tr c (e.apply d) c' d' →
      WholeSteps o (.event e :: tr) c d c' d'

/-- Whether what was done from one state to another is a selection of the
runner's acts, each a whole step, among all the events. -/
def Whole (o : Options) (tr : List (Act ε)) (c : Cpu) (d : Devices) (c' : Cpu) (d' : Devices) :
    Prop :=
  ∃ whole, whole.Sublist tr ∧ events whole = events tr ∧ WholeSteps o whole c d c' d'

section Whole

variable {o : Options} {tr : List (Act ε)} {c c' : Cpu} {d d' : Devices}

theorem Whole.nil (o : Options) (c : Cpu) (d : Devices) : Whole o ([] : List (Act ε)) c d c d :=
  ⟨[], List.Sublist.refl [], rfl, .nil c d⟩

theorem Whole.silent {byte : UInt8} (h : Whole o tr c d c' d') :
    Whole o (.run byte :: tr) c d c' d' := by
  obtain ⟨whole, hsub, hevents, hsteps⟩ := h
  exact ⟨whole, hsub.cons _, hevents, hsteps⟩

theorem Whole.step {byte : UInt8} (hdone : Completes o byte c d)
    (h : Whole o tr (step o byte c d).effect.cpu (step o byte c d).effect.devices c' d') :
    Whole o (.run byte :: tr) c d c' d' := by
  obtain ⟨whole, hsub, hevents, hsteps⟩ := h
  exact ⟨.run byte :: whole, hsub.cons_cons _, hevents, .step hdone hsteps⟩

theorem Whole.event {e : Event ε} (h : Whole o tr c (e.apply d) c' d') :
    Whole o (.event e :: tr) c d c' d' := by
  obtain ⟨whole, hsub, hevents, hsteps⟩ := h
  exact ⟨.event e :: whole, hsub.cons_cons _, congrArg (e :: ·) hevents, .event hsteps⟩

end Whole

/-! ## What every act preserves -/

/-- The news is out before the queue is closed, a runner that waits does so for
an instruction of its program, and it ends without a fault only after the news. -/
structure Orderly (s : Scene) : Prop where
  news : s.devices.keys.closed = true ∨ 0 < s.closing → s.devices.down = true
  ready : s.runner.Ready
  ended : s.runner.phase = .ended none → s.devices.down = true

theorem orderly_start {cpu : Cpu} {dev : Devices} {closing : Nat}
    (h : dev.keys.closed = true ∨ 0 < closing → dev.down = true) :
    (start cpu dev closing).Orderly where
  news := h
  ready := by
    intro x hx
    cases hx
  ended := by
    intro hended
    cases hended

section Next

variable {o : Options} {s t : Scene}

/-- Without the news nobody closes the queue, and no other event does. -/
theorem news_apply {e : Event ε} {n : Nat} (h : s.Orderly)
    (hclosing : closingAfter e s.closing = some n)
    (hclosed : (e.apply s.devices).keys.closed = true ∨ 0 < n) :
    (e.apply s.devices).down = true := by
  by_cases hdown : s.devices.down = true
  · exact Event.down_apply hdown
  · have hopen : ¬ s.devices.keys.closed = true := fun hc => hdown (h.news (Or.inl hc))
    have hnone : s.closing = 0 := by
      rcases Nat.eq_zero_or_pos s.closing with hzero | hpos
      · exact hzero
      · exact absurd (h.news (Or.inr hpos)) hdown
    rw [hnone] at hclosing
    cases e with
    | announce => rfl
    | closeKeys => cases hclosing
    | _ =>
        obtain rfl := Option.some.inj hclosing
        rcases hclosed with hc | hc
        · rcases (Event.closed_apply_iff _ _).mp hc with hc | hc
          · exact absurd hc hopen
          · cases hc
        · omega

theorem Orderly.next {a : Act ε} (h : s.Orderly) (hnext : s.next? o a = some t) : t.Orderly := by
  cases a with
  | run byte =>
      obtain rfl := Option.some.inj hnext
      refine ⟨?_, Runner.ready_advance o byte s.devices h.ready, ?_⟩
      · rw [Runner.closed_advance, Runner.down_advance]
        exact h.news
      · rw [Runner.down_advance]
        exact Runner.down_of_ended o byte s.devices h.ready h.ended
  | event e =>
      obtain ⟨n, hclosing, rfl⟩ := Option.map_eq_some_iff.mp hnext
      exact ⟨news_apply h hclosing, h.ready, fun hended => Event.down_apply (h.ended hended)⟩

theorem Orderly.run {tr : List (Act ε)} (h : s.Orderly) (hrun : s.run? o tr = some t) :
    t.Orderly := by
  induction tr generalizing s with
  | nil =>
      obtain rfl := Option.some.inj hrun
      exact h
  | cons a tr ih =>
      obtain ⟨m, hnext, hrest⟩ := Option.bind_eq_some_iff.mp hrun
      exact ih (h.next hnext) hrest

end Next

/-! ## Whole runs -/

/-- Whether a run came to a fault: whole steps, a step that faults, and from
then on nothing but events. -/
def Broken (o : Options) (tr : List (Act ε)) (c : Cpu) (d : Devices) (f : Fault)
    (c' : Cpu) (d' : Devices) : Prop :=
  ∃ pre byte post cpu dev, tr = pre ++ .run byte :: post ∧ Whole o pre c d cpu dev ∧
    (step o byte cpu dev).effect.outcome = .fault f ∧
    c' = (step o byte cpu dev).effect.cpu ∧
    d' = Event.applyAll (events post) (step o byte cpu dev).effect.devices

section Run

variable {o : Options} {s t : Scene} {tr : List (Act ε)}

/-- What can be put in front of whole steps can be put in front of a fault. -/
theorem Broken.cons {a : Act ε} {c c₁ c' : Cpu} {d d₁ d' : Devices} {f : Fault}
    (hwhole : ∀ pre cpu dev, Whole o pre c₁ d₁ cpu dev → Whole o (a :: pre) c d cpu dev)
    (h : Broken o tr c₁ d₁ f c' d') : Broken o (a :: tr) c d f c' d' := by
  obtain ⟨pre, byte, post, cpu, dev, htr, hpre, hrest⟩ := h
  exact ⟨a :: pre, byte, post, cpu, dev, by rw [htr, List.cons_append],
    hwhole pre cpu dev hpre, hrest⟩

theorem run_of_ended {fault : Option Fault} (hrun : s.run? o tr = some t)
    (hended : s.runner.phase = .ended fault) :
    t.runner = s.runner ∧ t.devices = Event.applyAll (events tr) s.devices := by
  induction tr generalizing s with
  | nil =>
      obtain rfl := Option.some.inj hrun
      exact ⟨rfl, rfl⟩
  | cons a tr ih =>
      obtain ⟨m, hnext, hrest⟩ := Option.bind_eq_some_iff.mp hrun
      cases a with
      | run byte =>
          obtain rfl := Option.some.inj hnext
          have hstays : s.runner.advance o byte s.devices = ⟨s.runner, s.devices, []⟩ := by
            simp only [Runner.advance, hended]
          rw [hstays] at hrest
          exact ih hrest hended
      | event e =>
          obtain ⟨n, -, rfl⟩ := Option.map_eq_some_iff.mp hnext
          exact ih hrest hended

/-- Every run of a scene is a run of whole steps, or came to a fault after one.
The induction is on what happens; at each point the whole steps stand where the
runner is settled. -/
theorem Orderly.whole_or_broken (h : s.Orderly)
    (hphase : ∀ f, s.runner.phase ≠ .ended (some f)) (hrun : s.run? o tr = some t) :
    ((∀ f, t.runner.phase ≠ .ended (some f)) ∧
      Whole o tr s.runner.settled s.devices t.runner.settled t.devices) ∨
    (∃ f, t.runner.phase = .ended (some f) ∧
      Broken o tr s.runner.settled s.devices f t.runner.cpu t.devices) := by
  induction tr generalizing s with
  | nil =>
      obtain rfl := Option.some.inj hrun
      exact Or.inl ⟨hphase, Whole.nil o _ _⟩
  | cons a tr ih =>
      obtain ⟨m, hnext, hrest⟩ := Option.bind_eq_some_iff.mp hrun
      have hm : m.Orderly := h.next hnext
      cases a with
      | event e =>
          obtain ⟨n, -, rfl⟩ := Option.map_eq_some_iff.mp hnext
          rcases ih hm hphase hrest with ⟨hnot, hwhole⟩ | ⟨f, hfault, hbroken⟩
          · exact Or.inl ⟨hnot, hwhole.event⟩
          · exact Or.inr ⟨f, hfault, hbroken.cons fun _ _ _ => Whole.event⟩
      | run byte =>
          obtain rfl := Option.some.inj hnext
          rcases Runner.advance_ways o byte s.devices h.ready hphase with
            ⟨hsettled, hdev, hnot⟩ | ⟨hdone, hrunner, hdev⟩ | ⟨f, hout, hrunner, hdev⟩
          · rcases ih hm hnot hrest with ⟨hnot', hwhole⟩ | ⟨f, hfault, hbroken⟩
            · rw [hsettled, hdev] at hwhole
              exact Or.inl ⟨hnot', hwhole.silent⟩
            · rw [hsettled, hdev] at hbroken
              exact Or.inr ⟨f, hfault, hbroken.cons fun _ _ _ => Whole.silent⟩
          · have hnot : ∀ f, (s.runner.advance o byte s.devices).runner.phase ≠
                .ended (some f) := by
              intro f hf
              rw [hrunner] at hf
              cases hf
            rcases ih hm hnot hrest with ⟨hnot', hwhole⟩ | ⟨f, hfault, hbroken⟩
            · rw [hrunner, hdev] at hwhole
              exact Or.inl ⟨hnot', hwhole.step hdone⟩
            · rw [hrunner, hdev] at hbroken
              exact Or.inr ⟨f, hfault, hbroken.cons fun _ _ _ => Whole.step hdone⟩
          · have hended : (s.runner.advance o byte s.devices).runner.phase =
                .ended (some f) := by rw [hrunner]
            obtain ⟨hsame, happly⟩ := run_of_ended hrest hended
            refine Or.inr ⟨f, by rw [hsame, hended], [], byte, tr, _, _, rfl,
              Whole.nil o _ _, hout, ?_, ?_⟩
            · rw [hsame, hrunner]
            · rw [happly, hdev]

/-- Once the news is given, a runner that is about to look does nothing more. -/
theorem run_of_down (hrun : s.run? o tr = some t) (hdown : s.devices.down = true)
    (hphase : s.runner.phase = .checking ∨ s.runner.phase = .ended none) :
    t.runner.cpu = s.runner.cpu ∧
      (t.runner.phase = .checking ∨ t.runner.phase = .ended none) := by
  induction tr generalizing s with
  | nil =>
      obtain rfl := Option.some.inj hrun
      exact ⟨rfl, hphase⟩
  | cons a tr ih =>
      obtain ⟨m, hnext, hrest⟩ := Option.bind_eq_some_iff.mp hrun
      cases a with
      | event e =>
          obtain ⟨n, -, rfl⟩ := Option.map_eq_some_iff.mp hnext
          have hlater := ih hrest (Event.down_apply hdown) hphase
          exact hlater
      | run byte =>
          obtain rfl := Option.some.inj hnext
          have hends : s.runner.advance o byte s.devices =
              ⟨{ s.runner with phase := .ended none }, s.devices, []⟩ := by
            rcases hphase with hr | hr
            · simp only [Runner.advance, hr, hdown, ↓reduceIte]
            · simp only [Runner.advance, hr]
              rw [← hr]
          rw [hends] at hrest
          have hlater := ih hrest hdown (Or.inr rfl)
          exact hlater

end Run

/-- **A run ends between two instructions.**  The news that the run is over may
be given, and the queue of keys closed, at any time.

In every state that is reached a closed queue means that the news was given.
If the run ends without a fault, the news was given, and processor and devices
are as after whole steps.  A wait for a key that is given up is none of them:
the processor is back at the instruction, no key is gone, and no further
instruction is executed.  If the run ends with a fault, every step was completed
but the last, which had that fault. -/
theorem run_ends_between_instructions (o : Options) (cpu : Cpu) (dev : Devices) (closing : Nat)
    (hnews : dev.keys.closed = true ∨ 0 < closing → dev.down = true) :
    (∀ (tr : List (Act ε)) s, (start cpu dev closing).run? o tr = some s →
      s.devices.keys.closed = true → s.devices.down = true) ∧
    (∀ (tr : List (Act ε)) s, (start cpu dev closing).run? o tr = some s →
      s.runner.phase = .ended none →
      s.devices.down = true ∧ Whole o tr cpu dev s.runner.cpu s.devices) ∧
    (∀ (pre post : List (Act ε)) m x byte s, (start cpu dev closing).run? o pre = some m →
      m.runner.GivesUp m.devices x → m.run? o (.run byte :: post) = some s →
      Whole o pre cpu dev m.runner.settled m.devices ∧
        m.runner.settled.current = .ok (.waitKey x) ∧
        (m.runner.advance o byte m.devices).devices = m.devices ∧
        s.runner.cpu = m.runner.settled ∧
        (s.runner.phase = .checking ∨ s.runner.phase = .ended none)) ∧
    (∀ (tr : List (Act ε)) s f, (start cpu dev closing).run? o tr = some s →
      s.runner.phase = .ended (some f) → Broken o tr cpu dev f s.runner.cpu s.devices) := by
  have hstart : (start cpu dev closing).Orderly := orderly_start hnews
  have hphase : ∀ f, (start cpu dev closing).runner.phase ≠ .ended (some f) := by
    intro f hf
    cases hf
  refine ⟨?_, ?_, ?_, ?_⟩
  · intro tr s hrun hclosed
    exact (hstart.run hrun).news (Or.inl hclosed)
  · intro tr s hrun hended
    refine ⟨(hstart.run hrun).ended hended, ?_⟩
    rcases hstart.whole_or_broken hphase hrun with ⟨-, hwhole⟩ | ⟨f, hfault, -⟩
    · have hsettled : s.runner.settled = s.runner.cpu := by simp only [Runner.settled, hended]
      rw [hsettled] at hwhole
      exact hwhole
    · rw [hended] at hfault
      cases hfault
  · intro pre post m x byte s hpre hgives hrun
    have hm : m.Orderly := hstart.run hpre
    obtain ⟨hcurrent, hrunner, hdev⟩ := Runner.advance_of_givesUp o byte m.devices hm.ready hgives
    have hdown : m.devices.down = true := hm.news (Or.inl hgives.1)
    obtain ⟨n, hnext, hrest⟩ := Option.bind_eq_some_iff.mp hrun
    obtain rfl := Option.some.inj hnext
    have hstill := run_of_down hrest (by simp only [hdev, hdown])
      (Or.inl (by simp only [hrunner]))
    rw [hrunner] at hstill
    have hwhole : Whole o pre cpu dev m.runner.settled m.devices := by
      rcases hstart.whole_or_broken hphase hpre with ⟨-, hwhole⟩ | ⟨f, hfault, -⟩
      · exact hwhole
      · rcases hgives.2 with ⟨hr, -⟩ | hr <;> rw [hr] at hfault <;> cases hfault
    exact ⟨hwhole, hcurrent, hdev, hstill⟩
  · intro tr s f hrun hfault
    rcases hstart.whole_or_broken hphase hrun with ⟨hnot, -⟩ | ⟨g, hg, hbroken⟩
    · exact absurd hfault (hnot f)
    · rw [hfault] at hg
      rw [Option.some.inj (Phase.ended.inj hg)]
      exact hbroken

/-- A processor whose first instruction waits for a key. -/
def awaiting : Cpu :=
  { Cpu.initial with
    memory := ⟨overlay (Vector.replicate 0x1000 0) Memory.programStart [0xF0, 0x0A]⟩ }

/-- The same processor at the end of memory, where no word is left. -/
def strayed : Cpu :=
  { awaiting with pc := 0xFFF }

/-- The wait begins, and then the run is ended. -/
def endedWhileWaiting : List (Act Unit) :=
  [.run 0, .run 0, .event .announce, .event .closeKeys]

theorem current_awaiting : awaiting.current = .ok (.waitKey 0) := by decide +kernel

theorem run_endedWhileWaiting :
    (start awaiting .initial 0).run? .standard endedWhileWaiting =
      some ⟨⟨awaiting.advance, .waiting 0⟩, Devices.initial.shutDown.1, 0⟩ := by
  have hblocked : (step .standard 0 awaiting .initial).effect =
      ⟨.blocked 0, awaiting.advance, .initial⟩ := by
    rw [step_of_current current_awaiting]
    rfl
  simp only [endedWhileWaiting, run?, next?, start, Runner.start, Runner.advance, hblocked,
    Option.bind_some]
  rfl

/-- All four parts of `run_ends_between_instructions`: a run that is ended while
it waits for a key, and one that comes to the end of memory. -/
theorem run_ends_between_instructions_awaiting :
    (start awaiting .initial 0).run? .standard (endedWhileWaiting ++ [.run 0, .run 0]) =
        some ⟨⟨awaiting, .ended none⟩, Devices.initial.shutDown.1, 0⟩ ∧
      Devices.initial.shutDown.1.down = true ∧
      Whole .standard (endedWhileWaiting ++ [.run 0, .run 0]) awaiting .initial
        awaiting Devices.initial.shutDown.1 ∧
      Whole .standard endedWhileWaiting awaiting .initial
        awaiting Devices.initial.shutDown.1 ∧
      Broken .standard ([.run 0, .run 0] : List (Act Unit)) strayed .initial
        (.address ⟨0x1000⟩) strayed .initial := by
  have hgiven : (start awaiting .initial 0).run? .standard
      (endedWhileWaiting ++ [.run 0, .run 0]) =
        some ⟨⟨awaiting, .ended none⟩, Devices.initial.shutDown.1, 0⟩ := by
    rw [run?_append, run_endedWhileWaiting]
    rfl
  have hnews : Devices.initial.keys.closed = true ∨ 0 < 0 → Devices.initial.down = true := by
    decide
  obtain ⟨hclosed, hends, hgives, -⟩ :=
    run_ends_between_instructions .standard awaiting .initial 0 hnews
  obtain ⟨-, -, -, hbreaks⟩ :=
    run_ends_between_instructions .standard strayed .initial 0 hnews
  have hback := hgives endedWhileWaiting [.run 0] _ 0 0 _ run_endedWhileWaiting
    ⟨rfl, Or.inr rfl⟩ rfl
  have hbroken := hbreaks ([.run 0, .run 0] : List (Act Unit)) _ (.address ⟨0x1000⟩) rfl rfl
  exact ⟨hgiven, hclosed _ _ hgiven rfl, (hends _ _ hgiven rfl).2, hback.1, hbroken⟩

end Scene

end Chip8
