import Chip8.Proofs.Control
import Chip8.Proofs.Ensemble

/-!
# What a program writes

Two kinds of instruction write to memory, and each writes a block at `I`
(`execute_memory`).  Whatever else happens, to this processor or to another, a
byte stays as it is until a block is written over it, and the deeds of the
processor tell which blocks were written (`byte_performAll`).

A program is loaded above the glyphs.  So a new processor with a program has the
program where it was loaded, and the glyphs where they always were.
-/

set_option autoImplicit false

namespace Chip8

/-! ## One instruction -/

/-- How many bytes an instruction writes at `I`, if it is carried out. -/
def Instruction.storeSize : Instruction → Nat
  | .storeDigits _ => 3
  | .storeRegisters x => Cpu.blockSize x
  | _ => 0

/-- The block that an instruction writes at `I`, if it writes one. -/
def Instruction.stored (i : Instruction) (c : Cpu) : List UInt8 :=
  match i with
  | .storeDigits x => Cpu.decimalDigits (c.reg x)
  | .storeRegisters x => c.registers.toList.take (Cpu.blockSize x)
  | _ => []

theorem Instruction.length_stored (i : Instruction) (c : Cpu) :
    (i.stored c).length = i.storeSize := by
  cases i with
  | storeRegisters x => exact Cpu.length_take_blockSize c x
  | _ => rfl

theorem Cpu.memory_afterTransfer (o : Options) (c : Cpu) (count : Nat) :
    (c.afterTransfer o count).memory = c.memory := by
  unfold afterTransfer
  split <;> rfl

section Execute

variable (o : Options) (byte : UInt8) (i : Instruction) (c : Cpu) (d : Devices)

theorem execute_storeDigits (x : Register) (h : c.index.toNat + 3 ≤ Memory.size) :
    execute o byte (.storeDigits x) c d =
      ⟨.done, { c with
        memory := ⟨overlay c.memory.bytes c.index.toNat (Cpu.decimalDigits (c.reg x))⟩ }, d⟩ := by
  have hwrite := c.writeBlock_eq (Cpu.decimalDigits (c.reg x))
  rw [Cpu.length_decimalDigits, if_pos h] at hwrite
  simp only [execute, hwrite]

/-- An instruction writes its block at `I` if the block ends within memory, and
nothing else. -/
theorem execute_memory :
    (execute o byte i c d).cpu.memory =
      if c.index.toNat + i.storeSize ≤ Memory.size then
        ⟨overlay c.memory.bytes c.index.toNat (i.stored c)⟩
      else c.memory := by
  cases i with
  | storeDigits x =>
      simp only [Instruction.stored, Instruction.storeSize]
      by_cases h : c.index.toNat + 3 ≤ Memory.size
      · rw [execute_storeDigits o byte c d x h]
        exact (if_pos h).symm
      · have hwrite := c.writeBlock_eq (Cpu.decimalDigits (c.reg x))
        rw [Cpu.length_decimalDigits, if_neg h] at hwrite
        simp only [execute, hwrite]
        exact (if_neg h).symm
  | storeRegisters x =>
      have hlen := Cpu.length_take_blockSize c x
      simp only [Instruction.stored, Instruction.storeSize]
      by_cases h : c.index.toNat + Cpu.blockSize x ≤ Memory.size
      · have hwrite := c.writeBlock_eq (c.registers.toList.take (Cpu.blockSize x))
        rw [hlen, if_pos h] at hwrite
        simp only [execute, hwrite, Cpu.memory_afterTransfer]
        exact (if_pos h).symm
      · have hwrite := c.writeBlock_eq (c.registers.toList.take (Cpu.blockSize x))
        rw [hlen, if_neg h] at hwrite
        simp only [execute, hwrite]
        exact (if_neg h).symm
  | ret | call a | draw x y rows | waitKey x =>
      simp only [execute, Instruction.stored, overlay, ite_self]
      split <;> rfl
  | skipEqByte x b | skipNeByte x b | skipEq x y | skipNe x y | skipKey x | skipNotKey x =>
      simp only [execute, Cpu.skipIf, Instruction.stored, overlay, ite_self]
      split <;> rfl
  | loadRegisters x =>
      simp only [Instruction.stored, overlay, ite_self]
      rcases c.readBlock_cases (Cpu.blockSize_lt x) with ⟨-, f, h⟩ | ⟨-, data, h⟩ <;>
        simp only [execute, h, Cpu.memory_afterTransfer]
  | _ => exact (ite_self _).symm

/-- An instruction that has room for its block writes it. -/
theorem outcome_of_stores (hsome : 0 < i.storeSize)
    (hin : c.index.toNat + i.storeSize ≤ Memory.size) :
    (execute o byte i c d).outcome = .done := by
  have hsound : i.fault? c = none := by
    cases i with
    | storeDigits x => exact if_pos hin
    | storeRegisters x => exact if_pos hin
    | _ => exact absurd hsome (Nat.lt_irrefl 0)
  rcases outcome_of_no_fault o byte d hsound with hdone | ⟨x, rfl, -, -⟩
  · exact hdone
  · exact absurd hsome (Nat.lt_irrefl 0)

end Execute

namespace Ensemble

/-- Whether a deed wrote over the byte at an address: it was carried out, and the
address lies in its block. -/
def Deed.Writes (d : Deed) (a : Nat) : Prop :=
  d.outcome = .done ∧ d.cpu.index.toNat ≤ a ∧ a < d.cpu.index.toNat + d.instruction.storeSize

instance (d : Deed) (a : Nat) : Decidable (d.Writes a) :=
  inferInstanceAs (Decidable (_ ∧ _ ∧ _))

end Ensemble

section Execute

variable {o : Options} {byte : UInt8} {i : Instruction} {c : Cpu} {d : Devices} {a : Nat}

/-- A byte that an instruction does not write over stays as it is. -/
theorem byte_execute (ha : a < 0x1000)
    (h : ¬ (⟨i, c, (execute o byte i c d).outcome⟩ : Ensemble.Deed).Writes a) :
    (execute o byte i c d).cpu.memory.bytes[a] = c.memory.bytes[a] := by
  rw [execute_memory]
  by_cases hin : c.index.toNat + i.storeSize ≤ Memory.size
  · rw [if_pos hin]
    apply getElem_overlay_of_outside
    rw [i.length_stored c]
    by_contra hinside
    have hblock : c.index.toNat ≤ a ∧ a < c.index.toNat + i.storeSize := by omega
    exact h ⟨outcome_of_stores o byte i c d (by omega) hin, hblock⟩
  · rw [if_neg hin]

end Execute

/-! ## A run -/

namespace Ensemble

variable {ι ε : Type} [DecidableEq ι] {o : ι → Options} {s : Ensemble ι} {j : ι} {a : Nat}

theorem byte_perform {act : Act ι ε} (ha : a < 0x1000)
    (h : ∀ d, s.deed? o j act = some d → ¬ d.Writes a) :
    ((s.perform o act).runners j).cpu.memory.bytes[a] = (s.runners j).cpu.memory.bytes[a] := by
  cases hdeed : s.deed? o j act with
  | none =>
      rcases runner_perform_of_no_deed o hdeed with hsame | ⟨-, hcpu | ⟨-, hcpu⟩⟩
      · rw [hsame]
      · rw [hcpu]
      · rw [hcpu]
        rfl
  | some d =>
      obtain ⟨byte, hexec, houtcome⟩ := executes_of_deed o hdeed
      have hquiet : ¬ (⟨d.instruction, d.cpu,
          (execute (o j) byte d.instruction d.cpu s.devices).outcome⟩ : Deed).Writes a := by
        rw [← houtcome]
        exact h d hdeed
      have hmemory : d.cpu.memory = (s.runners j).cpu.memory := by
        rcases cpu_of_executes hexec with hcpu | ⟨-, hcpu⟩
        · rw [hcpu]
        · rw [hcpu]
          rfl
      rw [runner_perform_of_executes o hexec]
      exact (byte_execute ha hquiet).trans (by rw [hmemory])

/-- A byte stays until its processor writes over it.  Nothing that another
processor or the surroundings do touches it, in whatever order. -/
theorem byte_performAll {acts : List (Act ι ε)} (ha : a < 0x1000)
    (h : ∀ d ∈ deeds o j s acts, ¬ d.Writes a) :
    ((s.performAll o acts).runners j).cpu.memory.bytes[a] =
      (s.runners j).cpu.memory.bytes[a] := by
  induction acts generalizing s with
  | nil => rfl
  | cons act acts ih =>
      simp only [deeds, List.mem_append, Option.mem_toList] at h
      calc ((s.performAll o (act :: acts)).runners j).cpu.memory.bytes[a]
          = ((s.perform o act).runners j).cpu.memory.bytes[a] :=
            ih fun d hd => h d (Or.inr hd)
        _ = (s.runners j).cpu.memory.bytes[a] :=
            byte_perform ha fun d hd => h d (Or.inl hd)

end Ensemble

/-! ## A program -/

namespace Cpu

theorem load_of_fits (c : Cpu) {program : List UInt8}
    (h : program.length ≤ Memory.programCapacity) :
    c.load program = .ok ({ c with memory := ⟨overlay c.memory.bytes Memory.programStart program⟩ },
      [.programLoaded program.length]) := by
  simp only [load, Memory.load, if_neg (Nat.not_lt.mpr h)]

/-- What a program was loaded into is the same processor with the program in
memory, and the program fits there. -/
theorem of_load {c c' : Cpu} {program : List UInt8} {log : List Notice}
    (h : c.load program = .ok (c', log)) :
    program.length ≤ Memory.programCapacity ∧
      c' = { c with memory := ⟨overlay c.memory.bytes Memory.programStart program⟩ } ∧
      log = [.programLoaded program.length] := by
  have hfits : program.length ≤ Memory.programCapacity := by
    by_contra hlarge
    simp [load, Memory.load, Nat.not_le.mp hlarge] at h
  rw [load_of_fits c hfits, Except.ok.injEq, Prod.mk.injEq] at h
  exact ⟨hfits, h.1.symm, h.2.symm⟩

section Loaded

variable {c c' : Cpu} {program : List UInt8} {log : List Notice}
  (h : c.load program = .ok (c', log))

include h

/-- A program lies where it was loaded. -/
theorem byte_of_load {k : Nat} (hk : k < program.length)
    (ha : Memory.programStart + k < 0x1000) :
    c'.memory.bytes[Memory.programStart + k] = program[k] := by
  obtain ⟨-, rfl, -⟩ := of_load h
  exact getElem_overlay_of_inside hk ha

/-- Below the program nothing changes. -/
theorem byte_of_load_below {a : Nat} (hlow : a < Memory.programStart) (ha : a < 0x1000) :
    c'.memory.bytes[a] = c.memory.bytes[a] := by
  obtain ⟨-, rfl, -⟩ := of_load h
  exact getElem_overlay_of_outside ha (Or.inl hlow)

end Loaded

/-- What two bytes at the program counter make a word. -/
theorem fetch_of_bytes {c : Cpu} {a : Nat} {high low : UInt8} (hpc : c.pc.toNat = a)
    (ha : a + 1 < 0x1000) (hhigh : c.memory.bytes[a] = high) (hlow : c.memory.bytes[a + 1] = low) :
    c.fetch = .ok (Word.ofBytes high low) := by
  subst hpc
  have hin : Memory.Fits c.pc.toUInt64 2 := by
    rw [Memory.fits_iff, UInt16.toNat_toUInt64]
    exact ha
  simp only [fetch, Memory.word, hin, ↓reduceDIte, UInt16.toNat_toUInt64, hhigh, hlow]

end Cpu

end Chip8
