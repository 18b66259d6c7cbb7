import Chip8.Proofs.Stores

/-!
# When a machine faults

There are few reasons for which a step fails, and each is a condition on numbers:
where the program counter stands, which word lies there, how many calls are open,
and where the block ends that an instruction moves at `I`.  `Instruction.Faults`
and `Cpu.StepFaults` list them, with the fault that each leads to, in exact
arithmetic and without any of the code that checks a range.

That code decides through saturating sums of 64-bit numbers
(`Memory.rangeError_toUInt64`, `blockFault?_eq_some_iff`), and what it decides is
exactly this list.  Where nothing on it applies a step is carried out, unless it
is kept waiting for a key.
-/

set_option autoImplicit false

namespace Chip8

/-! ## Ranges -/

/-- The fault of a range that starts at a 16-bit address names that address, or
the end of memory. -/
theorem Memory.rangeError_toUInt64 (a : UInt16) :
    rangeError a.toUInt64 = ⟨UInt64.ofNat (max a.toNat 4096)⟩ := by
  have ha := a.toNat_lt
  have hmax : (max a.toUInt64 0x1000).toNat = max a.toNat 4096 := by
    have hend : (0x1000 : UInt64).toNat = 4096 := rfl
    change (if a.toUInt64 ≤ 0x1000 then (0x1000 : UInt64) else a.toUInt64).toNat = _
    simp only [UInt64.le_iff_toNat_le, UInt16.toNat_toUInt64, hend]
    split
    · rw [hend]
      omega
    · rw [UInt16.toNat_toUInt64]
      omega
  rw [rangeError, AddressError.mk.injEq, ← UInt64.toNat_inj, hmax,
    UInt64.toNat_ofNat_of_lt' (by simp only [UInt64.size]; omega)]

theorem Cpu.blockFault?_eq_some_iff {c : Cpu} {count : Nat} {f : Fault} :
    c.blockFault? count = some f ↔
      4096 < c.index.toNat + count ∧
        f = .address ⟨UInt64.ofNat (max c.index.toNat 4096)⟩ := by
  rw [blockFault?, Memory.rangeError_toUInt64]
  split
  · rename_i hin
    have hin : ¬4096 < c.index.toNat + count := Nat.not_lt.mpr hin
    simp only [hin, reduceCtorEq, false_and]
  · rename_i hout
    have hout : 4096 < c.index.toNat + count := Nat.lt_of_not_le hout
    simp only [hout, true_and, Option.some.injEq, eq_comm]

/-! ## Instructions -/

namespace Instruction

/-- The length of the block that an instruction reads or writes at `I`. -/
def blockLength? : Instruction → Option Nat
  | .draw _ _ rows => some rows.toNat
  | .storeDigits _ => some 3
  | .storeRegisters x => some (x.val + 1)
  | .loadRegisters x => some (x.val + 1)
  | _ => none

/-- The instruction cannot be carried out, and this is why. -/
inductive Faults (c : Cpu) : Instruction → Fault → Prop where
  | noCall : c.stack = [] → Faults c .ret .stackUnderflow
  | fullStack (a : UInt16) : c.stack.length = 16 → Faults c (.call a) .stackOverflow
  | outside {i : Instruction} {count : Nat} :
      i.blockLength? = some count → 4096 < c.index.toNat + count →
      Faults c i (.address ⟨UInt64.ofNat (max c.index.toNat 4096)⟩)

/-- The instruction is kept waiting for a key that is meant for `x`. -/
def Waits (d : Devices) (i : Instruction) (x : Register) : Prop :=
  i = .waitKey x ∧ d.keys.keys = [] ∧ d.keys.closed = false

theorem fault?_of_blockLength {i : Instruction} {count : Nat} (h : i.blockLength? = some count)
    (c : Cpu) : i.fault? c = c.blockFault? count := by
  cases i with
  | draw | storeDigits | storeRegisters | loadRegisters =>
      obtain rfl := Option.some.inj h
      rfl
  | _ => cases h

theorem fault?_eq_some_iff {i : Instruction} {c : Cpu} {f : Fault} :
    i.fault? c = some f ↔ i.Faults c f := by
  constructor
  · intro h
    cases hblock : i.blockLength? with
    | some count =>
        rw [fault?_of_blockLength hblock, Cpu.blockFault?_eq_some_iff] at h
        obtain ⟨hout, rfl⟩ := h
        exact .outside hblock hout
    | none =>
        cases i with
        | ret =>
            rw [fault?] at h
            split at h
            · rename_i hempty
              exact Option.some.inj h ▸ .noCall hempty
            · cases h
        | call a =>
            rw [fault?] at h
            split at h
            · rename_i hfull
              exact Option.some.inj h ▸ .fullStack a hfull
            · cases h
        | draw | storeDigits | storeRegisters | loadRegisters => cases hblock
        | _ => cases h
  · intro h
    cases h with
    | noCall hempty => rw [fault?, if_pos hempty]
    | fullStack a hfull => rw [fault?, if_pos hfull]
    | outside hblock hout =>
        rw [fault?_of_blockLength hblock]
        exact Cpu.blockFault?_eq_some_iff.mpr ⟨hout, rfl⟩

/-- Neither the stack nor `I` has changed when the program counter has moved on. -/
theorem fault?_advance (i : Instruction) (c : Cpu) : i.fault? c.advance = i.fault? c := by
  cases i <;> rfl

theorem ofWord_eq_error_iff_forall_ne {w : UInt16} {e : InvalidWord} :
    ofWord w = .error e ↔ (∀ i, ofWord w ≠ .ok i) ∧ e = ⟨w⟩ := by
  simp only [ofWord_eq_error_iff, ne_eq, ofWord_eq_ok_iff, Option.eq_none_iff_forall_ne_some]

end Instruction

/-- An instruction that neither faults nor is kept waiting is carried out. -/
theorem Outcome.eq_done_iff {out : Outcome} :
    out = .done ↔ (∀ f, out ≠ .fault f) ∧ ∀ x, out ≠ .blocked x := by
  cases out <;> simp

section Execute

variable {o : Options} {byte : UInt8} {i : Instruction} {c : Cpu} {dev : Devices}

theorem execute_outcome_fault_iff {f : Fault} :
    (execute o byte i c dev).outcome = .fault f ↔ i.Faults c f :=
  outcome_eq_fault_iff.trans Instruction.fault?_eq_some_iff

theorem execute_outcome_blocked_iff {x : Register} :
    (execute o byte i c dev).outcome = .blocked x ↔ i.Waits dev x := by
  constructor
  · intro h
    obtain ⟨hwait, hpending, -⟩ := execute_of_blocked h
    obtain ⟨hopen, hempty⟩ := dev.keys.waitPop_pending.mp hpending
    exact ⟨hwait, hempty, hopen⟩
  · rintro ⟨rfl, hempty, hopen⟩
    simp only [execute, KeyQueue.waitPop, hopen, hempty, Bool.false_eq_true, ↓reduceIte]

end Execute

/-! ## Words -/

namespace Cpu

/-- The word at the program counter, whose high byte comes first. -/
def WordAt (c : Cpu) (w : UInt16) : Prop :=
  ∃ high low, c.memory.bytes[c.pc.toNat]? = some high ∧
    c.memory.bytes[c.pc.toNat + 1]? = some low ∧ w.toNat = 256 * high.toNat + low.toNat

theorem fetch_eq_ok_iff {c : Cpu} {w : UInt16} : c.fetch = .ok w ↔ c.WordAt w := by
  constructor
  · intro h
    have hin : c.pc.toNat + 1 < 0x1000 := pc_of_fetch h
    rw [fetch_of_bytes rfl hin rfl rfl] at h
    obtain rfl := Except.ok.inj h
    exact ⟨_, _, Vector.getElem?_eq_getElem (Nat.lt_of_succ_lt hin),
      Vector.getElem?_eq_getElem hin, Word.toNat_ofBytes _ _⟩
  · rintro ⟨high, low, hhigh, hlow, hw⟩
    obtain ⟨_, hhigh⟩ := Vector.getElem?_eq_some_iff.mp hhigh
    obtain ⟨hin, hlow⟩ := Vector.getElem?_eq_some_iff.mp hlow
    have hword : Word.ofBytes high low = w :=
      UInt16.toNat_inj.mp ((Word.toNat_ofBytes high low).trans hw.symm)
    rw [fetch_of_bytes rfl hin hhigh hlow, hword]

theorem fetch_eq_error_iff {c : Cpu} {e : AddressError} :
    c.fetch = .error e ↔ 4094 < c.pc.toNat ∧ e = ⟨UInt64.ofNat (max c.pc.toNat 4096)⟩ := by
  by_cases hin : c.pc.toNat + 1 < 0x1000
  · have hlow : ¬4094 < c.pc.toNat := by omega
    simp only [fetch_of_bytes rfl hin rfl rfl, hlow, reduceCtorEq, false_and]
  · have hhigh : 4094 < c.pc.toNat := by omega
    have hout : ¬Memory.Fits c.pc.toUInt64 2 := by
      rw [Memory.fits_iff, UInt16.toNat_toUInt64]
      exact hin
    rw [fetch, Memory.word, dif_neg hout, Memory.rangeError_toUInt64]
    simp only [hhigh, true_and, Except.error.injEq, eq_comm]

/-! ## Steps -/

/-- A step fails, and this is why. -/
inductive StepFaults (c : Cpu) : Fault → Prop where
  | noWord : 4094 < c.pc.toNat →
      StepFaults c (.address ⟨UInt64.ofNat (max c.pc.toNat 4096)⟩)
  | noInstruction {w : UInt16} : c.WordAt w → (∀ i, Instruction.ofWord w ≠ .ok i) →
      StepFaults c (.invalidWord ⟨w⟩)
  | instruction {w : UInt16} {i : Instruction} {f : Fault} :
      c.WordAt w → Instruction.ofWord w = .ok i → i.Faults c f → StepFaults c f

/-- A step is kept waiting for a key that is meant for `x`. -/
def StepWaits (c : Cpu) (d : Devices) (x : Register) : Prop :=
  ∃ w i, c.WordAt w ∧ Instruction.ofWord w = .ok i ∧ i.Waits d x

theorem current_eq_ok_iff {c : Cpu} {i : Instruction} :
    c.current = .ok i ↔ ∃ w, c.WordAt w ∧ Instruction.ofWord w = .ok i := by
  constructor
  · intro h
    obtain ⟨w, hfetch, hword⟩ := fetch_of_current h
    exact ⟨w, fetch_eq_ok_iff.mp hfetch, hword⟩
  · rintro ⟨w, hat, hword⟩
    simp only [current, fetch_eq_ok_iff.mpr hat, hword]

theorem stepFaults_iff {c : Cpu} {f : Fault} :
    c.StepFaults f ↔ c.current = .error f ∨ ∃ i, c.current = .ok i ∧ i.fault? c = some f := by
  constructor
  · intro h
    cases h with
    | noWord hpc =>
        have hfetch := fetch_eq_error_iff.mpr ⟨hpc, rfl⟩
        exact Or.inl (by simp only [current, hfetch])
    | noInstruction hat hnone =>
        have hword := Instruction.ofWord_eq_error_iff_forall_ne.mpr ⟨hnone, rfl⟩
        exact Or.inl (by simp only [current, fetch_eq_ok_iff.mpr hat, hword])
    | instruction hat hword hfault =>
        exact Or.inr ⟨_, current_eq_ok_iff.mpr ⟨_, hat, hword⟩,
          Instruction.fault?_eq_some_iff.mpr hfault⟩
  · rintro (h | ⟨i, h, hfault⟩)
    · rw [current] at h
      cases hfetch : c.fetch with
      | error e =>
          obtain ⟨hpc, rfl⟩ := fetch_eq_error_iff.mp hfetch
          rw [hfetch] at h
          exact Except.error.inj h ▸ .noWord hpc
      | ok w =>
          cases hword : Instruction.ofWord w with
          | error e =>
              obtain ⟨hnone, rfl⟩ := Instruction.ofWord_eq_error_iff_forall_ne.mp hword
              simp only [hfetch, hword] at h
              exact Except.error.inj h ▸ .noInstruction (fetch_eq_ok_iff.mp hfetch) hnone
          | ok i =>
              simp only [hfetch, hword] at h
              cases h
    · obtain ⟨w, hat, hword⟩ := current_eq_ok_iff.mp h
      exact .instruction hat hword (Instruction.fault?_eq_some_iff.mp hfault)

theorem stepWaits_iff {c : Cpu} {d : Devices} {x : Register} :
    c.StepWaits d x ↔ ∃ i, c.current = .ok i ∧ i.Waits d x := by
  constructor
  · rintro ⟨w, i, hat, hword, hwait⟩
    exact ⟨i, current_eq_ok_iff.mpr ⟨w, hat, hword⟩, hwait⟩
  · rintro ⟨i, hcurrent, hwait⟩
    obtain ⟨w, hat, hword⟩ := current_eq_ok_iff.mp hcurrent
    exact ⟨w, i, hat, hword, hwait⟩

end Cpu

section Step

variable {o : Options} {byte : UInt8} {c : Cpu} {dev : Devices}

theorem step_outcome_fault_iff {f : Fault} :
    (step o byte c dev).effect.outcome = .fault f ↔ c.StepFaults f := by
  rw [Cpu.stepFaults_iff]
  cases hcurrent : c.current with
  | error g =>
      rw [outcome_of_current_error hcurrent]
      simp
  | ok i =>
      rw [step_of_current hcurrent, outcome_eq_fault_iff, Instruction.fault?_advance]
      simp

theorem step_outcome_blocked_iff {x : Register} :
    (step o byte c dev).effect.outcome = .blocked x ↔ c.StepWaits dev x := by
  rw [Cpu.stepWaits_iff]
  cases hcurrent : c.current with
  | error g =>
      rw [outcome_of_current_error hcurrent]
      simp
  | ok i =>
      rw [step_of_current hcurrent, execute_outcome_blocked_iff]
      simp

/-- **Faults are known beforehand.**  A step fails exactly in the cases that
`Cpu.StepFaults` lists, and with the fault listed there; it is kept waiting
exactly if the instruction waits for a key, no key is pending and the queue is
open; and in every other state it is carried out.  The same holds of every
instruction that is executed by itself, whatever its operands are, with the cases
of `Instruction.Faults`. -/
theorem faults_are_known_beforehand (o : Options) (byte : UInt8) (c : Cpu) (dev : Devices) :
    ((∀ f, (step o byte c dev).effect.outcome = .fault f ↔ c.StepFaults f) ∧
      (∀ x, (step o byte c dev).effect.outcome = .blocked x ↔ c.StepWaits dev x) ∧
      ((step o byte c dev).effect.outcome = .done ↔
        (∀ f, ¬c.StepFaults f) ∧ ∀ x, ¬c.StepWaits dev x)) ∧
    ∀ i : Instruction,
      (∀ f, (execute o byte i c dev).outcome = .fault f ↔ i.Faults c f) ∧
      (∀ x, (execute o byte i c dev).outcome = .blocked x ↔ i.Waits dev x) ∧
      ((execute o byte i c dev).outcome = .done ↔
        (∀ f, ¬i.Faults c f) ∧ ∀ x, ¬i.Waits dev x) := by
  refine ⟨⟨?_, ?_, ?_⟩, ?_⟩
  · exact fun f => step_outcome_fault_iff
  · exact fun x => step_outcome_blocked_iff
  · rw [Outcome.eq_done_iff]
    simp only [ne_eq, step_outcome_fault_iff, step_outcome_blocked_iff]
  · intro i
    refine ⟨fun f => execute_outcome_fault_iff, fun x => execute_outcome_blocked_iff, ?_⟩
    rw [Outcome.eq_done_iff]
    simp only [ne_eq, execute_outcome_fault_iff, execute_outcome_blocked_iff]

end Step

/-- `faults_are_known_beforehand` at the edges: a row of a sprite at the highest
`I` there is, no row at all behind the end of memory, three digits with room for
two, a program counter at the last byte, and a word that is no instruction. -/
theorem faults_are_known_beforehand_at_edges :
    (execute .standard 0 (.draw .offset .flag 1) { Cpu.initial with index := 0xFFFF }
        .initial).outcome = .fault (.address ⟨0xFFFF⟩) ∧
      (execute .standard 0 (.draw .offset .flag 0) { Cpu.initial with index := 0x1000 }
        .initial).outcome = .done ∧
      (execute .standard 0 (.storeDigits .flag) { Cpu.initial with index := 0xFFE }
        .initial).outcome = .fault (.address ⟨0x1000⟩) ∧
      (step .standard 0 { Cpu.initial with pc := 0xFFF } .initial).effect.outcome =
        .fault (.address ⟨0x1000⟩) ∧
      (step .standard 0 { Cpu.initial with memory := ⟨Vector.replicate 0x1000 0⟩ }
        .initial).effect.outcome = .fault (.invalidWord ⟨0⟩) := by
  refine ⟨?_, ?_, ?_, ?_, ?_⟩
  · have hcase := (faults_are_known_beforehand .standard 0 { Cpu.initial with index := 0xFFFF }
      .initial).2 (.draw .offset .flag 1)
    exact (hcase.1 _).mpr (.outside rfl (by decide))
  · have hcase := (faults_are_known_beforehand .standard 0 { Cpu.initial with index := 0x1000 }
      .initial).2 (.draw .offset .flag 0)
    refine hcase.2.2.mpr ⟨?_, ?_⟩
    · intro f hfault
      cases hfault with
      | outside hblock hout =>
          obtain rfl := Option.some.inj hblock
          exact absurd hout (by decide)
    · intro x hwait
      cases hwait.1
  · have hcase := (faults_are_known_beforehand .standard 0 { Cpu.initial with index := 0xFFE }
      .initial).2 (.storeDigits .flag)
    exact (hcase.1 _).mpr (.outside rfl (by decide))
  · have hcase := (faults_are_known_beforehand .standard 0 { Cpu.initial with pc := 0xFFF }
      .initial).1
    exact (hcase.1 _).mpr (.noWord (by decide))
  · have hcase := (faults_are_known_beforehand .standard 0
      { Cpu.initial with memory := ⟨Vector.replicate 0x1000 0⟩ } .initial).1
    have hword : Cpu.WordAt { Cpu.initial with memory := ⟨Vector.replicate 0x1000 0⟩ } 0 :=
      ⟨0, 0, Vector.getElem?_replicate_of_lt (by decide),
        Vector.getElem?_replicate_of_lt (by decide), rfl⟩
    have hnone : Instruction.ofWord 0 = .error ⟨0⟩ := rfl
    exact (hcase.1 _).mpr
      (.noInstruction hword (Instruction.ofWord_eq_error_iff_forall_ne.mp hnone).1)

end Chip8
