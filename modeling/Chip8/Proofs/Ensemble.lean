import Chip8.Proofs.Actions

/-!
# Processors that share their devices

Any number of runners can work on the same devices.  An act of an `Ensemble` is
the next action of one of them, or an event of the surroundings, and the acts
may come in any order.  A runner can also be driven from outside: told to take a
step although the run is over, or given an instruction that is not in its
program.  So what holds for all lists of acts holds for loops that look for the
news between steps, and for steps taken one by one.

Most acts of a runner execute one instruction; `executes?` says which, and
`perform_of_executes` that this is all they do.
-/

set_option autoImplicit false

namespace Chip8

/-! ## Ensembles -/

/-- Processors at work on the same devices. -/
@[ext]
structure Ensemble (ι : Type) where
  runners : ι → Runner
  devices : Devices

namespace Ensemble

variable {ι ε : Type}

/-- Processors that are about to run. -/
def start (cpu : ι → Cpu) (dev : Devices) : Ensemble ι :=
  ⟨fun j => .start (cpu j), dev⟩

/-- What can happen in an ensemble. -/
inductive Act (ι ε : Type) where
  /-- A runner takes its next action, with a random byte at hand. -/
  | advance (j : ι) (byte : UInt8)
  /-- A runner that does not wait is told to take a step, whatever the news. -/
  | demand (j : ι)
  /-- A processor that does not wait is given an instruction to execute. -/
  | impose (j : ι) (byte : UInt8) (i : Instruction)
  /-- The surroundings act. -/
  | event (e : Event ε)

/-- The instruction that an act executes, if it executes one: by whom, with
which random byte, and on which state of the processor. -/
def executes? (s : Ensemble ι) (a : Act ι ε) : Option (ι × UInt8 × Instruction × Cpu) :=
  match a with
  | .advance j byte => (s.runners j).poised?.map fun p => (j, byte, p)
  | .impose j byte i =>
    if (s.runners j).isWaiting then none else some (j, byte, i, (s.runners j).cpu)
  | _ => none

/-- An act is an event, or it executes an instruction, or it does neither. -/
theorem act_cases (s : Ensemble ι) (a : Act ι ε) :
    (∃ e, a = .event e) ∨
    (∃ j byte i c, s.executes? a = some (j, byte, i, c)) ∨
    (s.executes? a = none ∧ ∀ e, a ≠ .event e) := by
  by_cases hevent : ∃ e, a = .event e
  · exact Or.inl hevent
  · have hno : ∀ e, a ≠ .event e := fun e he => hevent ⟨e, he⟩
    cases hexec : s.executes? a with
    | none => exact Or.inr (Or.inr ⟨rfl, hno⟩)
    | some p =>
        obtain ⟨j, byte, i, c⟩ := p
        exact Or.inr (Or.inl ⟨j, byte, i, c, rfl⟩)

/-- Whether an instruction is given to a processor from outside its memory. -/
def Act.isImposed : Act ι ε → Bool
  | .impose _ _ _ => true
  | _ => false

/-- Whose act this is, if it is one of a runner. -/
def Act.actor? : Act ι ε → Option ι
  | .advance j _ => some j
  | .demand j => some j
  | .impose j _ _ => some j
  | .event _ => none

section Executes

variable {s : Ensemble ι} {a : Act ι ε} {j : ι} {byte : UInt8} {i : Instruction} {c : Cpu}

theorem actor_of_executes (h : s.executes? a = some (j, byte, i, c)) : a.actor? = some j := by
  cases a with
  | advance k b =>
      obtain ⟨p, -, hp⟩ := Option.map_eq_some_iff.mp h
      exact congrArg (fun q => some q.1) hp
  | impose k b i' =>
      by_cases hwait : (s.runners k).isWaiting = true
      · simp [executes?, hwait] at h
      · simp only [executes?, hwait, Bool.false_eq_true, ↓reduceIte, Option.some.injEq,
          Prod.mk.injEq] at h
        exact congrArg some h.1
  | demand k => cases h
  | event e => cases h

theorem actor_ne_of_executes {k : ι} (h : s.executes? a = some (j, byte, i, c)) (hjk : j ≠ k) :
    a.actor? ≠ some k := by
  rw [actor_of_executes h]
  exact fun hk => hjk (Option.some.inj hk)

/-- What an act executes hangs on the runner whose act it is. -/
theorem executes_congr {t : Ensemble ι} (h : ∀ k, a.actor? = some k → t.runners k = s.runners k) :
    t.executes? a = s.executes? a := by
  cases a with
  | advance k b => simp only [executes?, h k rfl]
  | impose k b i => simp only [executes?, h k rfl]
  | demand k => rfl
  | event e => rfl

/-- An instruction finds its processor as it is, or past the word that was
fetched for it. -/
theorem cpu_of_executes (h : s.executes? a = some (j, byte, i, c)) :
    c = (s.runners j).cpu ∨ (s.runners j).cpu.current = .ok i ∧ c = (s.runners j).cpu.advance := by
  cases a with
  | advance k b =>
      obtain ⟨p, hpoised, hp⟩ := Option.map_eq_some_iff.mp h
      simp only [Prod.mk.injEq] at hp
      obtain ⟨rfl, rfl, rfl⟩ := hp
      exact Runner.cpu_of_poised hpoised
  | impose k b i' =>
      by_cases hwait : (s.runners k).isWaiting = true
      · simp [executes?, hwait] at h
      · simp only [executes?, hwait, Bool.false_eq_true, ↓reduceIte, Option.some.injEq,
          Prod.mk.injEq] at h
        obtain ⟨rfl, -, -, rfl⟩ := h
        exact Or.inl rfl
  | demand k => cases h
  | event e => cases h

theorem executes_of_current (byte : UInt8) (hphase : (s.runners j).phase = .stepping)
    (hcurrent : (s.runners j).cpu.current = .ok i) :
    s.executes? (.advance j byte : Act ι ε) = some (j, byte, i, (s.runners j).cpu.advance) := by
  simp only [executes?, Runner.poised?, hphase, hcurrent, Except.toOption, Option.map_some]

end Executes

variable [DecidableEq ι]

/-- The ensemble with one runner replaced. -/
def setRunner (s : Ensemble ι) (j : ι) (r : Runner) : Ensemble ι :=
  { s with runners := fun k => if k = j then r else s.runners k }

/-- The ensemble after an act. -/
def perform (o : ι → Options) (s : Ensemble ι) (a : Act ι ε) : Ensemble ι :=
  match a with
  | .advance j byte =>
    let action := (s.runners j).advance (o j) byte s.devices
    { s.setRunner j action.runner with devices := action.devices }
  | .demand j =>
    if (s.runners j).isWaiting then s
    else s.setRunner j { s.runners j with phase := .stepping }
  | .impose j byte i =>
    if (s.runners j).isWaiting then s
    else
      let effect := execute (o j) byte i (s.runners j).cpu s.devices
      { s.setRunner j (.ofEffect effect) with devices := effect.devices }
  | .event e => { s with devices := e.apply s.devices }

/-- The ensemble after several acts, in their order. -/
def performAll (o : ι → Options) (s : Ensemble ι) (acts : List (Act ι ε)) : Ensemble ι :=
  acts.foldl (fun t a => t.perform o a) s

@[simp] theorem runners_setRunner (s : Ensemble ι) (j : ι) (r : Runner) :
    (s.setRunner j r).runners j = r := by
  simp [setRunner]

section Perform

variable (o : ι → Options) {s : Ensemble ι} {a : Act ι ε}

/-- An act that executes an instruction does that and no more. -/
theorem perform_of_executes {j : ι} {byte : UInt8} {i : Instruction} {c : Cpu}
    (h : s.executes? a = some (j, byte, i, c)) :
    s.perform o a =
      { s.setRunner j (.ofEffect (execute (o j) byte i c s.devices)) with
        devices := (execute (o j) byte i c s.devices).devices } := by
  unfold executes? at h
  cases a with
  | advance k b =>
      obtain ⟨p, hpoised, hp⟩ := Option.map_eq_some_iff.mp h
      simp only [Prod.mk.injEq] at hp
      obtain ⟨rfl, rfl, rfl⟩ := hp
      obtain ⟨hrunner, hdev⟩ := Runner.advance_of_poised (o k) b s.devices hpoised
      simp only [perform, hrunner, hdev]
  | impose k b i' =>
      by_cases hwait : (s.runners k).isWaiting = true
      · simp [hwait] at h
      · simp only [hwait, Bool.false_eq_true, ↓reduceIte, Option.some.injEq, Prod.mk.injEq] at h
        obtain ⟨rfl, rfl, rfl, rfl⟩ := h
        simp only [perform, hwait, Bool.false_eq_true, ↓reduceIte]
  | demand k => simp at h
  | event e => simp at h

theorem runner_perform_of_executes {j : ι} {byte : UInt8} {i : Instruction} {c : Cpu}
    (h : s.executes? a = some (j, byte, i, c)) :
    (s.perform o a).runners j = .ofEffect (execute (o j) byte i c s.devices) := by
  rw [perform_of_executes o h]
  exact runners_setRunner s j _

theorem devices_perform_of_executes {j : ι} {byte : UInt8} {i : Instruction} {c : Cpu}
    (h : s.executes? a = some (j, byte, i, c)) :
    (s.perform o a).devices = i.devicesAfter c s.devices := by
  rw [perform_of_executes o h]
  exact execute_devices _ _ _ _ _

/-- An act of a runner that executes no instruction leaves the devices alone. -/
theorem devices_perform_of_not_executes (h : s.executes? a = none)
    (hevent : ∀ e, a ≠ .event e) : (s.perform o a).devices = s.devices := by
  unfold executes? at h
  cases a with
  | advance k b =>
      exact Runner.devices_advance_of_not_poised (o k) b s.devices (Option.map_eq_none_iff.mp h)
  | impose k b i =>
      by_cases hwait : (s.runners k).isWaiting = true
      · simp only [perform, hwait, ↓reduceIte]
      · simp [hwait] at h
  | demand k =>
      by_cases hwait : (s.runners k).isWaiting = true
      · simp only [perform, hwait, ↓reduceIte]
      · simp only [perform, hwait, Bool.false_eq_true, ↓reduceIte, setRunner]
  | event e => exact absurd rfl (hevent e)

/-- An act that is no event leaves both flags of the end of a run as they are. -/
theorem flags_perform_of_not_event (h : ∀ e, a ≠ .event e) :
    (s.perform o a).devices.down = s.devices.down ∧
      (s.perform o a).devices.keys.closed = s.devices.keys.closed := by
  rcases s.act_cases a with ⟨e, he⟩ | ⟨j, byte, i, c, hexec⟩ | ⟨hexec, hno⟩
  · exact absurd he (h e)
  · rw [perform_of_executes o hexec]
    exact ⟨execute_down _ _ _ _ _, execute_closed _ _ _ _ _⟩
  · rw [devices_perform_of_not_executes o hexec hno]
    exact ⟨rfl, rfl⟩

theorem down_perform_iff (s : Ensemble ι) (a : Act ι ε) :
    (s.perform o a).devices.down = true ↔ s.devices.down = true ∨ a = .event .announce := by
  by_cases hevent : ∃ e, a = .event e
  · obtain ⟨e, rfl⟩ := hevent
    rw [Act.event.injEq]
    exact e.down_apply_iff s.devices
  · have hno : ∀ e, a ≠ .event e := fun e he => hevent ⟨e, he⟩
    simp only [(flags_perform_of_not_event o hno).1, hno, or_false]

theorem closed_perform_iff (s : Ensemble ι) (a : Act ι ε) :
    (s.perform o a).devices.keys.closed = true ↔
      s.devices.keys.closed = true ∨ a = .event .closeKeys := by
  by_cases hevent : ∃ e, a = .event e
  · obtain ⟨e, rfl⟩ := hevent
    rw [Act.event.injEq]
    exact e.closed_apply_iff s.devices
  · have hno : ∀ e, a ≠ .event e := fun e he => hevent ⟨e, he⟩
    simp only [(flags_perform_of_not_event o hno).2, hno, or_false]

theorem runners_perform_of_ne {k : ι} (h : a.actor? ≠ some k) :
    (s.perform o a).runners k = s.runners k := by
  have hset : ∀ (j : ι) (r : Runner), j ≠ k → (s.setRunner j r).runners k = s.runners k := by
    intro j r hj
    exact if_neg (Ne.symm hj)
  cases a with
  | event e => rfl
  | advance j b => exact hset j _ fun hj => h (congrArg some hj)
  | demand j =>
      by_cases hwait : (s.runners j).isWaiting = true
      · simp only [perform, hwait, ↓reduceIte]
      · simp only [perform, hwait]
        exact hset j _ fun hj => h (congrArg some hj)
  | impose j b i =>
      by_cases hwait : (s.runners j).isWaiting = true
      · simp only [perform, hwait, ↓reduceIte]
      · simp only [perform, hwait]
        exact hset j _ fun hj => h (congrArg some hj)

/-- Of a runner whose act executes no instruction little changes: it may go past
a word that is no instruction. -/
theorem runner_perform_of_not_executes (h : s.executes? a = none) (j : ι) :
    (s.perform o a).runners j = s.runners j ∨
      ((s.perform o a).runners j).isWaiting = false ∧
        (((s.perform o a).runners j).cpu = (s.runners j).cpu ∨
          (∃ w, (s.runners j).cpu.fetch = .ok w) ∧
            ((s.perform o a).runners j).cpu = (s.runners j).cpu.advance) := by
  by_cases hactor : a.actor? = some j
  · cases a with
    | event e => cases hactor
    | advance k b =>
        obtain rfl := Option.some.inj hactor
        right
        have hpoised : (s.runners k).poised? = none := Option.map_eq_none_iff.mp h
        have hrunner : (s.perform o (.advance k b : Act ι ε)).runners k =
            ((s.runners k).advance (o k) b s.devices).runner := runners_setRunner s k _
        rw [hrunner]
        exact Runner.runner_advance_of_not_poised (o k) b s.devices hpoised
    | demand k =>
        obtain rfl := Option.some.inj hactor
        by_cases hwait : (s.runners k).isWaiting = true
        · left
          simp only [perform, hwait, ↓reduceIte]
        · right
          have hrunner : (s.perform o (.demand k : Act ι ε)).runners k =
              { s.runners k with phase := .stepping } := by
            simp only [perform, hwait, Bool.false_eq_true, ↓reduceIte, runners_setRunner]
          rw [hrunner]
          exact ⟨rfl, Or.inl rfl⟩
    | impose k b i =>
        obtain rfl := Option.some.inj hactor
        left
        by_cases hwait : (s.runners k).isWaiting = true
        · simp only [perform, hwait, ↓reduceIte]
        · simp [executes?, hwait] at h
  · exact Or.inl (runners_perform_of_ne o hactor)

end Perform

/-! ## What one processor does -/

/-- An instruction that a processor executed: the state that it found the
processor in, and how it ended.  One that waits for a key is listed each time
it looks for one. -/
structure Deed where
  instruction : Instruction
  cpu : Cpu
  outcome : Outcome

/-- What a runner executes in an act. -/
def deed? (o : ι → Options) (s : Ensemble ι) (j : ι) (a : Act ι ε) : Option Deed :=
  match s.executes? a with
  | some (k, byte, i, c) =>
    if k = j then some ⟨i, c, (execute (o j) byte i c s.devices).outcome⟩ else none
  | none => none

/-- What a runner executes in several acts, in their order. -/
def deeds (o : ι → Options) (j : ι) : Ensemble ι → List (Act ι ε) → List Deed
  | _, [] => []
  | s, a :: acts => (s.deed? o j a).toList ++ deeds o j (s.perform o a) acts

section Deeds

variable (o : ι → Options) {s : Ensemble ι} {a : Act ι ε} {j : ι}

theorem performAll_cons (s : Ensemble ι) (a : Act ι ε) (acts : List (Act ι ε)) :
    s.performAll o (a :: acts) = (s.perform o a).performAll o acts := rfl

theorem performAll_append (s : Ensemble ι) (acts acts' : List (Act ι ε)) :
    s.performAll o (acts ++ acts') = (s.performAll o acts).performAll o acts' :=
  List.foldl_append

theorem performAll_concat (s : Ensemble ι) (acts : List (Act ι ε)) (a : Act ι ε) :
    s.performAll o (acts ++ [a]) = (s.performAll o acts).perform o a := by
  simp [performAll]

theorem deeds_append (s : Ensemble ι) (j : ι) (acts acts' : List (Act ι ε)) :
    deeds o j s (acts ++ acts') = deeds o j s acts ++ deeds o j (s.performAll o acts) acts' := by
  induction acts generalizing s with
  | nil => rfl
  | cons a acts ih =>
      calc deeds o j s (a :: acts ++ acts')
          = (s.deed? o j a).toList ++ deeds o j (s.perform o a) (acts ++ acts') := rfl
        _ = (s.deed? o j a).toList ++ (deeds o j (s.perform o a) acts ++
              deeds o j ((s.perform o a).performAll o acts) acts') := by rw [ih]
        _ = deeds o j s (a :: acts) ++ deeds o j (s.performAll o (a :: acts)) acts' :=
            (List.append_assoc _ _ _).symm

theorem deeds_concat (s : Ensemble ι) (j : ι) (acts : List (Act ι ε)) (a : Act ι ε) :
    deeds o j s (acts ++ [a]) =
      deeds o j s acts ++ ((s.performAll o acts).deed? o j a).toList := by
  simp only [deeds_append, deeds, List.append_nil]

theorem executes_of_deed {d : Deed} (h : s.deed? o j a = some d) :
    ∃ byte, s.executes? a = some (j, byte, d.instruction, d.cpu) ∧
      d.outcome = (execute (o j) byte d.instruction d.cpu s.devices).outcome := by
  unfold deed? at h
  split at h
  · rename_i k byte i c hexec
    split at h
    · rename_i hk
      subst hk
      obtain rfl := Option.some.inj h
      exact ⟨byte, hexec, rfl⟩
    · cases h
  · cases h

theorem deed_of_executes {byte : UInt8} {i : Instruction} {c : Cpu}
    (h : s.executes? a = some (j, byte, i, c)) :
    s.deed? o j a = some ⟨i, c, (execute (o j) byte i c s.devices).outcome⟩ := by
  simp only [deed?, h, ↓reduceIte]

/-- A runner that executes nothing in an act may go past a word that is no
instruction, and that is all. -/
theorem runner_perform_of_no_deed (h : s.deed? o j a = none) :
    (s.perform o a).runners j = s.runners j ∨
      ((s.perform o a).runners j).isWaiting = false ∧
        (((s.perform o a).runners j).cpu = (s.runners j).cpu ∨
          (∃ w, (s.runners j).cpu.fetch = .ok w) ∧
            ((s.perform o a).runners j).cpu = (s.runners j).cpu.advance) := by
  cases hexec : s.executes? a with
  | none => exact runner_perform_of_not_executes o hexec j
  | some p =>
      obtain ⟨k, byte, i, c⟩ := p
      left
      by_cases hk : k = j
      · subst hk
        rw [deed_of_executes o hexec] at h
        cases h
      · exact runners_perform_of_ne o (actor_ne_of_executes hexec hk)

end Deeds

end Ensemble

end Chip8
