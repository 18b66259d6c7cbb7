import Chip8.Proofs.Ensemble

/-!
# Parts of the devices that are locked apart

The screen, the two timers, and the pending keys with the news that the run is
over are four domains, and whoever holds one of them never needs another.  Each
instruction works on one domain at most, and so does each event; `LocalTo` says
what that means, and the lemmas `local_execute` and `local_event` that it is so.
Everything else is a consequence: what is local to different domains can be done
in either order, with the same results and the same devices in the end.
-/

set_option autoImplicit false

namespace Chip8

/-- A part of the devices that is locked on its own. -/
inductive Domain where
  | screen
  | delay
  | sound
  | keys
  deriving DecidableEq

/-- The domain that an instruction works on, if it works on one. -/
def Instruction.domain? : Instruction → Option Domain
  | .clear => some .screen
  | .draw _ _ _ => some .screen
  | .getDelay _ => some .delay
  | .setDelay _ => some .delay
  | .setSound _ => some .sound
  | .skipKey _ => some .keys
  | .skipNotKey _ => some .keys
  | .waitKey _ => some .keys
  | _ => none

/-- The domain that an event works on. -/
def Event.domain {ε : Type} : Event ε → Domain
  | .refresh _ => .screen
  | .forceRefresh => .screen
  | .setDelay _ => .delay
  | .tickDelay => .delay
  | .setSound _ => .sound
  | .tickSound => .sound
  | .press _ => .keys
  | .pop => .keys
  | .announce => .keys
  | .closeKeys => .keys

/-- What the one who causes an event learns from it. -/
inductive Answer (ε : Type) where
  | nothing
  | key (k : Option Key)
  | ticked (old : UInt8)
  | refreshed (result : Screen.Refresh ε)
  | told (log : List Notice)

def Event.answer {ε : Type} (e : Event ε) (d : Devices) : Answer ε :=
  match e with
  | .pop => .key d.keys.pop.1
  | .tickDelay => .ticked d.tickDelay.1
  | .tickSound => .ticked d.tickSound.1
  | .refresh viewer => .refreshed (d.refresh viewer).1
  | .announce => .told d.announce.2
  | _ => .nothing

/-! ## What is local to a domain -/

/-- The devices `d` with the part in a domain taken from `source`. -/
def Devices.graft (p : Option Domain) (source d : Devices) : Devices :=
  match p with
  | none => d
  | some .screen => { d with screen := source.screen }
  | some .delay => { d with delay := source.delay }
  | some .sound => { d with sound := source.sound }
  | some .keys => { d with keys := source.keys, down := source.down }

namespace Devices

@[simp] theorem graft_self (p : Option Domain) (d : Devices) : graft p d d = d := by
  rcases p with _ | p
  · rfl
  · cases p <;> rfl

end Devices

/-- Two who hold these domains do not wait for each other. -/
def Apart (p q : Option Domain) : Prop :=
  p = q → p = none

theorem Apart.symm {p q : Option Domain} (h : Apart p q) : Apart q p :=
  fun hqp => hqp.trans (h hqp.symm)

theorem apart_of_ne {p : Option Domain} {q : Domain} (h : p ≠ some q) : Apart p (some q) :=
  fun hpq => absurd hpq h

namespace Devices

/-- Parts in different domains can be taken over in either order. -/
theorem graft_comm {p q : Option Domain} (h : Apart p q) (a b d : Devices) :
    graft p a (graft q b d) = graft q b (graft p a d) := by
  by_cases hpq : p = q
  · obtain rfl := h hpq
    subst hpq
    rfl
  · rcases p with _ | p
    · rfl
    · rcases q with _ | q
      · rfl
      · cases p <;> cases q <;> simp [graft] at hpq ⊢

end Devices

section Local

variable {α β : Type} {p q : Option Domain}

/-- Whatever the other parts of the devices are, the result and what becomes of
the part in this domain are the same, and the other parts stay as they are. -/
def LocalTo (p : Option Domain) (f : Devices → α × Devices) : Prop :=
  ∀ d e, f (.graft p d e) = ((f d).1, .graft p (f d).2 e)

variable {f : Devices → α × Devices} {g : Devices → β × Devices}

theorem LocalTo.snd (hf : LocalTo p f) (d : Devices) : (f d).2 = .graft p (f d).2 d := by
  have h := congrArg Prod.snd (hf d d)
  rwa [Devices.graft_self] at h

/-- Nothing of what `f` sees is changed by what is done in another domain. -/
theorem LocalTo.apply_after (hf : LocalTo p f) (hg : LocalTo q g) (h : Apart p q) (d : Devices) :
    f (g d).2 = ((f d).1, .graft p (f d).2 (g d).2) := by
  have hsame : Devices.graft p d (g d).2 = (g d).2 := by
    rw [hg.snd d, Devices.graft_comm h, Devices.graft_self]
  have hlocal := hf d (g d).2
  rwa [hsame] at hlocal

/-- What is local to different domains can be done in either order. -/
theorem LocalTo.comm (hf : LocalTo p f) (hg : LocalTo q g) (h : Apart p q) (d : Devices) :
    (f (g d).2).1 = (f d).1 ∧ (g (f d).2).1 = (g d).1 ∧ (f (g d).2).2 = (g (f d).2).2 := by
  rw [hf.apply_after hg h d, hg.apply_after hf h.symm d]
  refine ⟨rfl, rfl, ?_⟩
  calc Devices.graft p (f d).2 (g d).2
      = .graft p (f d).2 (.graft q (g d).2 d) := by rw [← hg.snd d]
    _ = .graft q (g d).2 (.graft p (f d).2 d) := Devices.graft_comm h _ _ _
    _ = .graft q (g d).2 (f d).2 := by rw [← hf.snd d]

end Local

/-! ## Instructions and events -/

/-- What an instruction does with the devices; its result is how it ends and
the processor. -/
def Instruction.run (o : Options) (byte : UInt8) (i : Instruction) (c : Cpu) (d : Devices) :
    (Outcome × Cpu) × Devices :=
  let e := execute o byte i c d
  ((e.outcome, e.cpu), e.devices)

theorem local_execute (o : Options) (byte : UInt8) (i : Instruction) (c : Cpu) :
    LocalTo i.domain? (i.run o byte c) := by
  intro d e
  cases i with
  | ret | call a | draw x y rows | waitKey x | storeDigits x | storeRegisters x | loadRegisters x =>
      simp only [Instruction.run, execute, Instruction.domain?, Devices.graft]
      split <;> rfl
  | _ => rfl

theorem local_event {ε : Type} (e : Event ε) :
    LocalTo (some e.domain) fun d => (e.answer d, e.apply d) := by
  intro d d'
  cases e <;> rfl

theorem local_shutDown : LocalTo (some .keys) fun d => (d.shutDown.2, d.shutDown.1) :=
  fun _ _ => rfl

attribute [ext] Effect

section Execute

variable (o o' : Options) (byte byte' : UInt8) {i i' : Instruction} (c c' : Cpu) (d : Devices)

/-- An instruction does the same before and after anything that is done in
another domain, and keeps nothing from it. -/
theorem execute_comm {α : Type} {q : Option Domain} {g : Devices → α × Devices}
    (hg : LocalTo q g) (h : Apart i.domain? q) :
    execute o byte i c (g d).2 =
        { execute o byte i c d with devices := (g (execute o byte i c d).devices).2 } ∧
      (g (execute o byte i c d).devices).1 = (g d).1 := by
  obtain ⟨hresult, hanswer, hdevices⟩ := (local_execute o byte i c).comm hg h d
  exact ⟨Effect.ext (congrArg Prod.fst hresult) (congrArg Prod.snd hresult) hdevices, hanswer⟩

end Execute

namespace Ensemble

variable {ι ε : Type} [DecidableEq ι] (o : ι → Options) {s : Ensemble ι} {a b : Act ι ε}
  {j k : ι} {byte byte' : UInt8} {i i' : Instruction} {c c' : Cpu}

theorem executes_perform (hjk : j ≠ k) (ha : s.executes? a = some (j, byte, i, c))
    (hb : s.executes? b = some (k, byte', i', c')) :
    (s.perform o a).executes? b = some (k, byte', i', c') := by
  rw [← hb]
  apply executes_congr
  intro l hl
  rw [actor_of_executes hb] at hl
  obtain rfl := Option.some.inj hl
  exact runners_perform_of_ne o (actor_ne_of_executes ha hjk)

/-- What a processor comes to does not depend on what another one does before it
in another domain. -/
theorem runner_perform_perform (hjk : j ≠ k) (ha : s.executes? a = some (j, byte, i, c))
    (hb : s.executes? b = some (k, byte', i', c')) (h : Apart i.domain? i'.domain?) :
    ((s.perform o a).perform o b).runners k = (s.perform o b).runners k := by
  have hcomm := execute_comm (o k) byte' c' s.devices (local_execute (o j) byte i c) h.symm
  rw [runner_perform_of_executes o (executes_perform o hjk ha hb),
    runner_perform_of_executes o hb, perform_of_executes o ha]
  have hrunner := congrArg Runner.ofEffect hcomm.1
  exact hrunner

theorem devices_perform_perform (hjk : j ≠ k) (ha : s.executes? a = some (j, byte, i, c))
    (hb : s.executes? b = some (k, byte', i', c')) (h : Apart i.domain? i'.domain?) :
    ((s.perform o a).perform o b).devices = ((s.perform o b).perform o a).devices := by
  have hcomm := (local_execute (o k) byte' i' c').comm (local_execute (o j) byte i c) h.symm
    s.devices
  rw [perform_of_executes o (executes_perform o hjk ha hb), perform_of_executes o ha,
    perform_of_executes o (executes_perform o hjk.symm hb ha), perform_of_executes o hb]
  exact hcomm.2.2

/-- Instructions of two processors can be executed in either order. -/
theorem perform_comm (hjk : j ≠ k) (ha : s.executes? a = some (j, byte, i, c))
    (hb : s.executes? b = some (k, byte', i', c')) (h : Apart i.domain? i'.domain?) :
    (s.perform o a).perform o b = (s.perform o b).perform o a := by
  have hrunners : ∀ l, ((s.perform o a).perform o b).runners l =
      ((s.perform o b).perform o a).runners l := by
    intro l
    by_cases hl : l = k
    · subst hl
      rw [runner_perform_perform o hjk ha hb h]
      exact (runners_perform_of_ne o (actor_ne_of_executes ha hjk)).symm
    · have hother : b.actor? ≠ some l := actor_ne_of_executes hb (Ne.symm hl)
      rw [runners_perform_of_ne o hother]
      by_cases hlj : l = j
      · subst hlj
        exact (runner_perform_perform o hjk.symm hb ha h.symm).symm
      · have hneither : a.actor? ≠ some l := actor_ne_of_executes ha (Ne.symm hlj)
        rw [runners_perform_of_ne o hneither, runners_perform_of_ne o hneither,
          runners_perform_of_ne o hother]
  exact Ensemble.ext (funext hrunners) (devices_perform_perform o hjk ha hb h)

/-- **The domains are independent.**  An instruction and an event of another
domain can come in either order: the instruction ends in the same way with the
same processor, the one who causes the event learns the same, and the devices
are the same in the end.  That holds for the end of a run as well, both as two
events and as a whole.

Of two processors that share their devices, instructions can come in either
order unless both work on the same domain.  Each processor comes to what it
would have come to without the other, its phase telling how the instruction
ended, and no act of one changes anything of the other. -/
theorem domains_are_independent :
    (∀ (o : Options) byte (i : Instruction) (c : Cpu) (d : Devices) (e : Event ε),
      i.domain? ≠ some e.domain →
        execute o byte i c (e.apply d) =
            { execute o byte i c d with devices := e.apply (execute o byte i c d).devices } ∧
          e.answer (execute o byte i c d).devices = e.answer d) ∧
    (∀ (o : Options) byte (i : Instruction) (c : Cpu) (d : Devices), i.domain? ≠ some .keys →
        execute o byte i c d.shutDown.1 =
            { execute o byte i c d with devices := (execute o byte i c d).devices.shutDown.1 } ∧
          (execute o byte i c d).devices.shutDown.2 = d.shutDown.2) ∧
    (∀ (o : ι → Options) (s : Ensemble ι) (a b : Act ι ε) j k byte byte' i i' c c', j ≠ k →
      s.executes? a = some (j, byte, i, c) → s.executes? b = some (k, byte', i', c') →
      (i.domain? = i'.domain? → i.domain? = none) →
        (s.perform o a).perform o b = (s.perform o b).perform o a ∧
          ((s.perform o a).perform o b).runners j = (s.perform o a).runners j ∧
          ((s.perform o a).perform o b).runners k = (s.perform o b).runners k) ∧
    (∀ (o : ι → Options) (s : Ensemble ι) (a : Act ι ε) j k, a.actor? = some j → k ≠ j →
      (s.perform o a).runners k = s.runners k) := by
  refine ⟨?_, ?_, ?_, ?_⟩
  · intro o byte i c d e hdomain
    exact execute_comm o byte c d (local_event e) (apart_of_ne hdomain)
  · intro o byte i c d hdomain
    exact execute_comm o byte c d local_shutDown (apart_of_ne hdomain)
  · intro o s a b j k byte byte' i i' c c' hjk ha hb happart
    refine ⟨perform_comm o hjk ha hb happart, ?_, runner_perform_perform o hjk ha hb happart⟩
    exact runners_perform_of_ne o (actor_ne_of_executes hb hjk.symm)
  · intro o s a j k hactor hkj
    apply runners_perform_of_ne
    rw [hactor]
    exact fun hjk => hkj (Option.some.inj hjk).symm

/-- Two processors, a key for one of them, and a timer at work. -/
def neighbours : Ensemble Bool :=
  start (fun _ => .initial) { Devices.initial.press (.ofByte 5) with delay := ⟨9⟩ }

def sprite : Instruction :=
  .draw .offset .offset 5

def drawing : Act Bool Unit :=
  .impose true 0 sprite

def taking : Act Bool Unit :=
  .impose false 0 (.waitKey .flag)

/-- `domains_are_independent` for a sprite and a tick, for a sprite and the end of
the run, and for a processor that draws while the other one takes a key. -/
theorem domains_are_independent_neighbours :
    execute .standard 0 sprite .initial neighbours.devices.tickDelay.2 =
        { execute .standard 0 sprite .initial neighbours.devices with
          devices :=
            (execute .standard 0 sprite .initial neighbours.devices).devices.tickDelay.2 } ∧
      (execute .standard 0 sprite .initial neighbours.devices).devices.shutDown.2 =
        neighbours.devices.shutDown.2 ∧
      (neighbours.perform (fun _ => .standard) drawing).perform (fun _ => .standard) taking =
        (neighbours.perform (fun _ => .standard) taking).perform (fun _ => .standard) drawing ∧
      (neighbours.perform (fun _ => .standard) drawing).runners false = .start .initial := by
  obtain ⟨hevent, hend, hacts, hframe⟩ := domains_are_independent (ι := Bool) (ε := Unit)
  have hdraw : neighbours.executes? drawing = some (true, 0, sprite, .initial) := rfl
  have htake : neighbours.executes? taking = some (false, 0, .waitKey .flag, .initial) := rfl
  refine ⟨?_, ?_, ?_, ?_⟩
  · exact (hevent .standard 0 sprite .initial neighbours.devices .tickDelay (by decide)).1
  · exact (hend .standard 0 sprite .initial neighbours.devices (by decide)).2
  · exact (hacts _ _ _ _ _ _ _ _ _ _ _ _ (by decide) hdraw htake (by decide)).1
  · exact hframe _ _ drawing true false rfl (by decide)

end Ensemble

end Chip8
