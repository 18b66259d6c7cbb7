import Chip8.Execute
import Mathlib.Control.Monad.Basic

/-!
# Faults leave no trace

An instruction that cannot be carried out changes nothing.  The condition under
which it faults, and the fault, depend on the processor alone; they are given
by `Instruction.fault?`, and `execute_of_fault` and `outcome_of_no_fault` say
that `execute` looks there first.

A step repeats the fetch and the decoding of `Cpu.current`, with the program
counter moved on in between.  The lemmas on `step` say what that comes to: a
step that faults leaves all but the program counter as it was, and the program
counter tells how far the step got.
-/

set_option autoImplicit false

namespace Chip8

/-! ## Blocks -/

namespace Cpu

/-- The fault of a block of `count` bytes at `I`, if it ends outside memory. -/
def blockFault? (c : Cpu) (count : Nat) : Option Fault :=
  if c.index.toNat + count ≤ Memory.size then none
  else some (.address (Memory.rangeError c.index.toUInt64))

theorem readBlock_eq (c : Cpu) {count : Nat} (hcount : count < UInt64.size) :
    c.readBlock count =
      if h : c.index.toNat + count ≤ Memory.size then
        .ok (stretch c.memory.bytes c.index.toNat count h)
      else
        .error (.address (Memory.rangeError c.index.toUInt64)) := by
  have hlen : (UInt64.ofNat count).toNat = count := UInt64.toNat_ofNat_of_lt' hcount
  have hfits : Memory.Fits c.index.toUInt64 (UInt64.ofNat count) ↔
      c.index.toNat + count ≤ Memory.size := by
    rw [Memory.fits_iff, UInt16.toNat_toUInt64, hlen]
  unfold readBlock Memory.read
  by_cases h : c.index.toNat + count ≤ Memory.size
  · simp only [hfits, h, ↓reduceDIte, UInt16.toNat_toUInt64, hlen]
  · simp only [hfits, h, ↓reduceDIte]

theorem length_readBlock (c : Cpu) {count : Nat} {data : List UInt8}
    (hcount : count < UInt64.size) (h : c.readBlock count = .ok data) : data.length = count := by
  rw [readBlock_eq c hcount] at h
  split at h
  · rw [← Except.ok.inj h, length_stretch]
  · cases h

theorem writeBlock_eq (c : Cpu) (data : List UInt8) :
    c.writeBlock data =
      if c.index.toNat + data.length ≤ Memory.size then
        .ok { c with memory := ⟨overlay c.memory.bytes c.index.toNat data⟩ }
      else
        .error (.address (Memory.rangeError c.index.toUInt64)) := by
  unfold writeBlock Memory.write
  simp only [Memory.write_condition, UInt16.toNat_toUInt64]
  by_cases h : c.index.toNat + data.length ≤ Memory.size
  · rw [if_pos h, if_pos h]
  · rw [if_neg h, if_neg h]

theorem readBlock_of_fault {c : Cpu} {count : Nat} {f : Fault} (hcount : count < UInt64.size)
    (h : c.blockFault? count = some f) : c.readBlock count = .error f := by
  unfold blockFault? at h
  split at h
  · cases h
  · rename_i hout
    rw [readBlock_eq c hcount, dif_neg hout, Option.some.inj h]

theorem readBlock_of_no_fault {c : Cpu} {count : Nat} (hcount : count < UInt64.size)
    (h : c.blockFault? count = none) : ∃ data, c.readBlock count = .ok data := by
  unfold blockFault? at h
  split at h
  · rename_i hin
    exact ⟨_, by rw [readBlock_eq c hcount, dif_pos hin]⟩
  · cases h

theorem writeBlock_of_fault {c : Cpu} {data : List UInt8} {count : Nat} {f : Fault}
    (hlen : data.length = count) (h : c.blockFault? count = some f) :
    c.writeBlock data = .error f := by
  subst hlen
  unfold blockFault? at h
  split at h
  · cases h
  · rename_i hout
    rw [writeBlock_eq, if_neg hout, Option.some.inj h]

theorem writeBlock_of_no_fault {c : Cpu} {data : List UInt8} {count : Nat}
    (hlen : data.length = count) (h : c.blockFault? count = none) :
    ∃ c', c.writeBlock data = .ok c' := by
  subst hlen
  unfold blockFault? at h
  split at h
  · rename_i hin
    exact ⟨_, by rw [writeBlock_eq, if_pos hin]⟩
  · cases h

theorem length_decimalDigits (v : UInt8) : (decimalDigits v).length = 3 := rfl

theorem length_take_blockSize (c : Cpu) (x : Register) :
    (c.registers.toList.take (blockSize x)).length = blockSize x := by
  have := x.isLt
  simp only [blockSize, List.length_take, Vector.length_toList]
  omega

theorem blockSize_lt (x : Register) : blockSize x < UInt64.size := by
  have := x.isLt
  simp only [blockSize, UInt64.size]
  omega

end Cpu

theorem rows_lt (rows : UInt8) : rows.toNat < UInt64.size :=
  Nat.lt_trans rows.toNat_lt (by decide)

/-! ## Instructions -/

/-- The fault of an instruction, if it cannot be carried out. -/
def Instruction.fault? (i : Instruction) (c : Cpu) : Option Fault :=
  match i with
  | .ret => if c.stack = [] then some .stackUnderflow else none
  | .call _ => if c.stack.length = Cpu.stackDepth then some .stackOverflow else none
  | .draw _ _ rows => c.blockFault? rows.toNat
  | .storeDigits _ => c.blockFault? 3
  | .storeRegisters x => c.blockFault? (Cpu.blockSize x)
  | .loadRegisters x => c.blockFault? (Cpu.blockSize x)
  | _ => none

section Execute

variable (o : Options) (byte : UInt8) {i : Instruction} {cpu : Cpu} (dev : Devices) {f : Fault}

/-- An instruction that faults does nothing else. -/
theorem execute_of_fault (h : i.fault? cpu = some f) :
    execute o byte i cpu dev = ⟨.fault f, cpu, dev⟩ := by
  cases i with
  | ret =>
      simp only [Instruction.fault?] at h
      split at h
      · rename_i hempty
        simp only [execute, hempty, Option.some.inj h]
      · cases h
  | call a =>
      simp only [Instruction.fault?] at h
      split at h
      · rename_i hfull
        simp only [execute, hfull, ↓reduceIte, Option.some.inj h]
      · cases h
  | draw x y rows =>
      simp only [execute, Cpu.readBlock_of_fault (rows_lt rows) h]
  | storeDigits x =>
      simp only [execute, Cpu.writeBlock_of_fault (Cpu.length_decimalDigits (cpu.reg x)) h]
  | storeRegisters x =>
      simp only [execute, Cpu.writeBlock_of_fault (Cpu.length_take_blockSize cpu x) h]
  | loadRegisters x =>
      simp only [execute, Cpu.readBlock_of_fault (Cpu.blockSize_lt x) h]
  | _ => cases h

/-- An instruction that does not fault is carried out, or waits for a key. -/
theorem outcome_of_no_fault (h : i.fault? cpu = none) :
    (execute o byte i cpu dev).outcome = .done ∨
      ∃ x, i = .waitKey x ∧ dev.keys.waitPop.1 = .pending ∧
        execute o byte i cpu dev = ⟨.blocked x, cpu, dev⟩ := by
  cases i with
  | ret =>
      left
      cases hstack : cpu.stack with
      | nil => simp [Instruction.fault?, hstack] at h
      | cons a rest => simp only [execute, hstack]
  | call a =>
      left
      by_cases hfull : cpu.stack.length = Cpu.stackDepth
      · simp [Instruction.fault?, hfull] at h
      · simp only [execute, hfull, ↓reduceIte]
  | draw x y rows =>
      left
      obtain ⟨sprite, hread⟩ := Cpu.readBlock_of_no_fault (rows_lt rows) h
      simp only [execute, hread]
  | storeDigits x =>
      left
      obtain ⟨c', hwrite⟩ :=
        Cpu.writeBlock_of_no_fault (Cpu.length_decimalDigits (cpu.reg x)) h
      simp only [execute, hwrite]
  | storeRegisters x =>
      left
      obtain ⟨c', hwrite⟩ :=
        Cpu.writeBlock_of_no_fault (Cpu.length_take_blockSize cpu x) h
      simp only [execute, hwrite]
  | loadRegisters x =>
      left
      obtain ⟨data, hread⟩ := Cpu.readBlock_of_no_fault (Cpu.blockSize_lt x) h
      simp only [execute, hread]
  | waitKey x =>
      cases hwait : dev.keys.waitPop with
      | mk found keys =>
          cases found with
          | pending => exact Or.inr ⟨x, rfl, rfl, by simp only [execute, hwait]⟩
          | key k => exact Or.inl (by simp only [execute, hwait])
          | closed => exact Or.inl (by simp only [execute, hwait])
  | _ => exact Or.inl rfl

/-- An instruction faults if and only if `Instruction.fault?` says so. -/
theorem outcome_eq_fault_iff {o : Options} {byte : UInt8} {dev : Devices} :
    (execute o byte i cpu dev).outcome = .fault f ↔ i.fault? cpu = some f := by
  constructor
  · intro hout
    cases hfault : i.fault? cpu with
    | none =>
        rcases outcome_of_no_fault o byte dev hfault with
          hdone | ⟨x, -, -, hblocked⟩
        · rw [hdone] at hout
          cases hout
        · rw [hblocked] at hout
          cases hout
    | some g =>
        rw [execute_of_fault o byte dev hfault] at hout
        rw [Outcome.fault.inj hout]
  · intro hfault
    rw [execute_of_fault o byte dev hfault]

/-- An instruction is kept waiting only if it waits for a key, and then it has
done nothing yet. -/
theorem execute_of_blocked {o : Options} {byte : UInt8} {dev : Devices} {x : Register}
    (h : (execute o byte i cpu dev).outcome = .blocked x) :
    i = .waitKey x ∧ dev.keys.waitPop.1 = .pending ∧
      execute o byte i cpu dev = ⟨.blocked x, cpu, dev⟩ := by
  cases hfault : i.fault? cpu with
  | none =>
      rcases outcome_of_no_fault o byte dev hfault with
        hdone | ⟨y, hi, hpending, hblocked⟩
      · rw [hdone] at h
        cases h
      · have hxy : y = x := by
          rw [hblocked] at h
          exact Outcome.blocked.inj h
        subst hxy
        exact ⟨hi, hpending, hblocked⟩
  | some g =>
      rw [execute_of_fault o byte dev hfault] at h
      cases h

end Execute

/-! ## Steps -/

namespace Cpu

/-- A word is fetched only where two bytes of memory are left. -/
theorem pc_of_fetch {c : Cpu} {w : UInt16} (h : c.fetch = .ok w) :
    c.pc.toNat + 2 ≤ Memory.size := by
  unfold fetch Memory.word at h
  split at h
  · rename_i hfits
    rw [Memory.fits_iff, UInt16.toNat_toUInt64] at hfits
    exact hfits
  · cases h

/-- Past a word that was fetched, the program counter is exactly two larger. -/
theorem toNat_pc_advance {c : Cpu} {w : UInt16} (h : c.fetch = .ok w) :
    (c.pc + 2).toNat = c.pc.toNat + 2 := by
  have hpc : c.pc.toNat + 2 ≤ 0x1000 := pc_of_fetch h
  rw [UInt16.toNat_add, show (2 : UInt16).toNat = 2 from rfl]
  omega

theorem fetch_of_current {c : Cpu} {i : Instruction} (h : c.current = .ok i) :
    ∃ w, c.fetch = .ok w ∧ Instruction.ofWord w = .ok i := by
  unfold current at h
  cases hfetch : c.fetch with
  | error e => rw [hfetch] at h; cases h
  | ok w =>
      cases hword : Instruction.ofWord w with
      | error e => simp [hfetch, hword] at h
      | ok j =>
          simp only [hfetch, hword, Except.ok.injEq] at h
          exact ⟨w, rfl, by rw [hword, h]⟩

end Cpu

section Step

variable {o : Options} {byte : UInt8} {i : Instruction} {cpu : Cpu} {dev : Devices} {f : Fault}

theorem step_of_current (h : cpu.current = .ok i) :
    step o byte cpu dev = ⟨execute o byte i cpu.advance dev, [.executing cpu.pc i]⟩ := by
  obtain ⟨w, hfetch, hword⟩ := Cpu.fetch_of_current h
  simp only [step, hfetch, hword]

theorem step_of_fetch_error {e : AddressError} (h : cpu.fetch = .error e) :
    step o byte cpu dev = ⟨⟨.fault (.address e), cpu, dev⟩, []⟩ := by
  simp only [step, h]

theorem step_of_invalid_word {w : UInt16} {e : InvalidWord} (hfetch : cpu.fetch = .ok w)
    (hword : Instruction.ofWord w = .error e) :
    step o byte cpu dev = ⟨⟨.fault (.invalidWord e), cpu.advance, dev⟩, []⟩ := by
  simp only [step, hfetch, hword]

/-- The three ways of a step: no word, no instruction, or an instruction. -/
theorem step_cases (o : Options) (byte : UInt8) (cpu : Cpu) (dev : Devices) :
    (∃ e, cpu.fetch = .error e ∧ cpu.current = .error (.address e) ∧
      step o byte cpu dev = ⟨⟨.fault (.address e), cpu, dev⟩, []⟩) ∨
    (∃ w e, cpu.fetch = .ok w ∧ cpu.current = .error (.invalidWord e) ∧
      step o byte cpu dev = ⟨⟨.fault (.invalidWord e), cpu.advance, dev⟩, []⟩) ∨
    (∃ w i, cpu.fetch = .ok w ∧ cpu.current = .ok i ∧
      step o byte cpu dev = ⟨execute o byte i cpu.advance dev, [.executing cpu.pc i]⟩) := by
  cases hfetch : cpu.fetch with
  | error e =>
      exact Or.inl ⟨e, rfl, by simp only [Cpu.current, hfetch], step_of_fetch_error hfetch⟩
  | ok w =>
      cases hword : Instruction.ofWord w with
      | error e =>
          have hcurrent : cpu.current = .error (.invalidWord e) := by
            simp only [Cpu.current, hfetch, hword]
          exact Or.inr (Or.inl ⟨w, e, rfl, hcurrent, step_of_invalid_word hfetch hword⟩)
      | ok i =>
          have hcurrent : cpu.current = .ok i := by simp only [Cpu.current, hfetch, hword]
          exact Or.inr (Or.inr ⟨w, i, rfl, hcurrent, step_of_current hcurrent⟩)

theorem outcome_of_current_error (h : cpu.current = .error f) :
    (step o byte cpu dev).effect.outcome = .fault f := by
  rcases step_cases o byte cpu dev with
    ⟨e, -, hcurrent, hstep⟩ | ⟨w, e, -, hcurrent, hstep⟩ | ⟨w, i, -, hcurrent, -⟩
  · rw [hcurrent] at h
    rw [hstep, Except.error.inj h]
  · rw [hcurrent] at h
    rw [hstep, Except.error.inj h]
  · rw [hcurrent] at h
    cases h

/-- A step that faults leaves the devices alone, and of the processor all but
the program counter, which has moved on if and only if a word was fetched. -/
theorem step_of_fault (h : (step o byte cpu dev).effect.outcome = .fault f) :
    (step o byte cpu dev).effect.devices = dev ∧
      ((∃ e, cpu.fetch = .error e) ∧ (step o byte cpu dev).effect.cpu = cpu ∨
        (∃ w, cpu.fetch = .ok w) ∧ (step o byte cpu dev).effect.cpu = cpu.advance) := by
  rcases step_cases o byte cpu dev with
    ⟨e, hfetch, -, hstep⟩ | ⟨w, e, hfetch, -, hstep⟩ | ⟨w, i, hfetch, -, hstep⟩
  · rw [hstep]
    exact ⟨rfl, Or.inl ⟨⟨e, hfetch⟩, rfl⟩⟩
  · rw [hstep]
    exact ⟨rfl, Or.inr ⟨⟨w, hfetch⟩, rfl⟩⟩
  · rw [hstep] at h ⊢
    -- The instruction ran past its word, and there it left no trace.
    rw [execute_of_fault o byte dev (outcome_eq_fault_iff.mp h)]
    exact ⟨rfl, Or.inr ⟨⟨w, hfetch⟩, rfl⟩⟩

/-- **Faults leave no trace.**  An instruction that faults changes nothing, and
a step is the fetch and decoding of `Cpu.current` followed by the instruction,
in the state whose program counter is two larger.  So a step that faults
changes at most the program counter, and that only if a word was fetched. -/
theorem faults_leave_no_trace (o : Options) (byte : UInt8) (cpu : Cpu) (dev : Devices) :
    (∀ i f, (execute o byte i cpu dev).outcome = .fault f →
      (execute o byte i cpu dev).cpu = cpu ∧ (execute o byte i cpu dev).devices = dev) ∧
    (∀ f, cpu.current = .error f → (step o byte cpu dev).effect.outcome = .fault f) ∧
    (∀ i, cpu.current = .ok i →
      (step o byte cpu dev).effect = execute o byte i { cpu with pc := cpu.pc + 2 } dev ∧
        (cpu.pc + 2).toNat = cpu.pc.toNat + 2) ∧
    (∀ f, (step o byte cpu dev).effect.outcome = .fault f →
      (step o byte cpu dev).effect.devices = dev ∧
        ((∃ e, cpu.fetch = .error e) ∧ (step o byte cpu dev).effect.cpu = cpu ∨
          (∃ w, cpu.fetch = .ok w) ∧
            (step o byte cpu dev).effect.cpu = { cpu with pc := cpu.pc + 2 } ∧
            (cpu.pc + 2).toNat = cpu.pc.toNat + 2)) := by
  refine ⟨?_, ?_, ?_, ?_⟩
  · intro i f h
    rw [execute_of_fault o byte dev (outcome_eq_fault_iff.mp h)]
    exact ⟨rfl, rfl⟩
  · intro f h
    exact outcome_of_current_error h
  · intro i h
    obtain ⟨w, hfetch, -⟩ := Cpu.fetch_of_current h
    rw [step_of_current h]
    exact ⟨rfl, Cpu.toNat_pc_advance hfetch⟩
  · intro f h
    obtain ⟨hdev, hcpu⟩ := step_of_fault h
    refine ⟨hdev, ?_⟩
    rcases hcpu with ⟨hnone, hsame⟩ | ⟨⟨w, hfetch⟩, hmoved⟩
    · exact Or.inl ⟨hnone, hsame⟩
    · exact Or.inr ⟨⟨w, hfetch⟩, hmoved, Cpu.toNat_pc_advance hfetch⟩

end Step

/-- A processor that can fail in several ways: its stack is full, `I` is the
last address, and every word of its memory is a call. -/
def Cpu.cornered : Cpu :=
  ⟨⟨Vector.replicate 0x1000 0x20⟩, Vector.replicate 16 0, 0xFFF, 0x200,
    List.replicate Cpu.stackDepth 0x300⟩

/-- The four parts of `faults_leave_no_trace` at a sprite that runs past the end
of memory, at the end of memory, at a call, and at that call on a full stack. -/
theorem faults_leave_no_trace_cornered :
    (execute .standard 0 (.draw 0 15 2) .cornered .initial).outcome =
        .fault (.address ⟨0x1000⟩) ∧
      (execute .standard 0 (.draw 0 15 2) .cornered .initial).cpu = .cornered ∧
      (step .standard 0 { Cpu.cornered with pc := 0xFFF } .initial).effect.outcome =
        .fault (.address ⟨0x1000⟩) ∧
      Cpu.cornered.current = .ok (.call 0x020) ∧
      (step .standard 0 .cornered .initial).effect =
        execute .standard 0 (.call 0x020) { Cpu.cornered with pc := 0x202 } .initial ∧
      (step .standard 0 .cornered .initial).effect.outcome = .fault .stackOverflow ∧
      (step .standard 0 .cornered .initial).effect.devices = .initial := by
  have hdraw : (execute .standard 0 (.draw 0 15 2) .cornered .initial).outcome =
      .fault (.address ⟨0x1000⟩) := by decide +kernel
  have hend : ({ Cpu.cornered with pc := 0xFFF } : Cpu).current =
      .error (.address ⟨0x1000⟩) := by decide +kernel
  have hcall : Cpu.cornered.current = .ok (.call 0x020) := by decide +kernel
  have hfull : (step .standard 0 .cornered .initial).effect.outcome = .fault .stackOverflow := by
    decide +kernel
  obtain ⟨hexecute, -, hcurrent, hstep⟩ := faults_leave_no_trace .standard 0 .cornered .initial
  exact ⟨hdraw, (hexecute _ _ hdraw).1,
    (faults_leave_no_trace .standard 0 { Cpu.cornered with pc := 0xFFF } .initial).2.1 _ hend,
    hcall, (hcurrent _ hcall).1, hfull, (hstep _ hfull).1⟩

end Chip8
