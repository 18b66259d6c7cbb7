import Chip8.Proofs.Devices
import Chip8.Proofs.Faults

/-!
# Where an instruction leaves the processor

Three registers of the processor are sixteen bits or lists of such: the program
counter, `I` and the call stack.  What an instruction leaves in the first two is
given here twice over: by `execute`, whose arithmetic wraps around, and in
integers, which do not.  `execute_pc` and `execute_index` say that the one is the
other modulo `0x10000`, whatever the state.  So an instruction wraps around where
the integer is not a sixteen-bit number, and nowhere else.
-/

set_option autoImplicit false

namespace Chip8

/-! ## The call stack -/

/-- What an instruction leaves of the call stack. -/
def Instruction.stackAfter (i : Instruction) (c : Cpu) : List UInt16 :=
  match i with
  | .ret => c.stack.tail
  | .call _ => if c.stack.length = Cpu.stackDepth then c.stack else c.pc :: c.stack
  | _ => c.stack

/-! ## The program counter and `I` -/

/-- Whether an instruction skips the next one. -/
def Instruction.skips (i : Instruction) (c : Cpu) (d : Devices) : Bool :=
  match i with
  | .skipEqByte x b => c.reg x == b
  | .skipNeByte x b => c.reg x != b
  | .skipEq x y => c.reg x == c.reg y
  | .skipNe x y => c.reg x != c.reg y
  | .skipKey x => (d.keys.popIf (c.reg x)).1
  | .skipNotKey x => d.keys.front?.map Key.code != some (c.reg x)
  | _ => false

/-- Where an instruction leaves the program counter, if nothing wraps around. -/
def Instruction.pcAfter (i : Instruction) (c : Cpu) (d : Devices) : Int :=
  match i with
  | .ret => (c.stack.head?.getD c.pc).toNat
  | .jump a => a.toNat
  | .call a => if c.stack.length = Cpu.stackDepth then c.pc.toNat else a.toNat
  | .jumpOffset a => a.toNat + (c.reg .offset).toNat
  | .waitKey _ => if d.keys.closed then c.pc.toNat - 2 else c.pc.toNat
  | i => if i.skips c d then c.pc.toNat + 2 else c.pc.toNat

/-- Where a block transfer leaves `I`, if nothing wraps around. -/
def Cpu.indexAfterTransfer (o : Options) (c : Cpu) (count : Nat) : Int :=
  if o.transfersAdvance ∧ c.index.toNat + count ≤ Memory.size then c.index.toNat + count
  else c.index.toNat

/-- Where an instruction leaves `I`, if nothing wraps around. -/
def Instruction.indexAfter (o : Options) (i : Instruction) (c : Cpu) : Int :=
  match i with
  | .setIndex a => a.toNat
  | .addIndex x => c.index.toNat + (c.reg x).toNat
  | .glyph x => Font.start + Font.height * ((c.reg x).toNat % 16)
  | .storeRegisters x => c.indexAfterTransfer o (Cpu.blockSize x)
  | .loadRegisters x => c.indexAfterTransfer o (Cpu.blockSize x)
  | _ => c.index.toNat

theorem Word.toNat_emod (w : UInt16) : (w.toNat : Int) = w.toNat % 0x10000 := by
  have := w.toNat_lt
  omega

theorem Word.toNat_add_emod (v w : UInt16) :
    ((v + w).toNat : Int) = ((v.toNat : Int) + w.toNat) % 0x10000 := by
  rw [UInt16.toNat_add]
  omega

theorem Word.toNat_sub_emod (v w : UInt16) :
    ((v - w).toNat : Int) = ((v.toNat : Int) - w.toNat) % 0x10000 := by
  have := v.toNat_lt
  have := w.toNat_lt
  rw [UInt16.toNat_sub]
  omega

namespace Cpu

theorem toNat_pc_skipIf (c : Cpu) (b : Bool) :
    ((c.skipIf b).pc.toNat : Int) =
      (if b then (c.pc.toNat : Int) + 2 else c.pc.toNat) % 0x10000 := by
  cases b with
  | false => exact Word.toNat_emod c.pc
  | true => exact Word.toNat_add_emod c.pc 2

theorem pc_afterTransfer (o : Options) (c : Cpu) (count : Nat) :
    (c.afterTransfer o count).pc = c.pc := by
  unfold afterTransfer
  split <;> rfl

theorem stack_afterTransfer (o : Options) (c : Cpu) (count : Nat) :
    (c.afterTransfer o count).stack = c.stack := by
  unfold afterTransfer
  split <;> rfl

theorem writeBlock_cases (c : Cpu) (data : List UInt8) :
    (¬ c.index.toNat + data.length ≤ Memory.size ∧ ∃ f, c.writeBlock data = .error f) ∨
    (c.index.toNat + data.length ≤ Memory.size ∧
      ∃ memory, c.writeBlock data = .ok { c with memory }) := by
  rw [writeBlock_eq]
  by_cases h : c.index.toNat + data.length ≤ Memory.size
  · exact Or.inr ⟨h, _, if_pos h⟩
  · exact Or.inl ⟨h, _, if_neg h⟩

theorem readBlock_cases (c : Cpu) {count : Nat} (hcount : count < UInt64.size) :
    (¬ c.index.toNat + count ≤ Memory.size ∧ ∃ f, c.readBlock count = .error f) ∨
    (c.index.toNat + count ≤ Memory.size ∧ ∃ data, c.readBlock count = .ok data) := by
  rw [readBlock_eq c hcount]
  by_cases h : c.index.toNat + count ≤ Memory.size
  · exact Or.inr ⟨h, _, dif_pos h⟩
  · exact Or.inl ⟨h, _, dif_neg h⟩

theorem toNat_index_afterTransfer (o : Options) {c : Cpu} {count : Nat}
    (h : c.index.toNat + count ≤ Memory.size) :
    ((c.afterTransfer o count).index.toNat : Int) = c.indexAfterTransfer o count % 0x10000 := by
  unfold afterTransfer indexAfterTransfer
  by_cases hmoves : o.transfersAdvance = true
  · have hcount : (UInt16.ofNat count).toNat = count := by
      have : count ≤ 0x1000 := Nat.le_trans (Nat.le_add_left _ _) h
      exact UInt16.toNat_ofNat_of_lt' (Nat.lt_of_le_of_lt this (by decide))
    simp only [hmoves, h, ↓reduceIte, true_and]
    rw [Word.toNat_add_emod, hcount]
  · simp only [hmoves]
    exact Word.toNat_emod c.index

end Cpu

section Execute

variable (o : Options) (byte : UInt8) (i : Instruction) (c : Cpu) (d : Devices)

/-- Calls and returns change the stack, and no other instruction does. -/
theorem execute_stack : (execute o byte i c d).cpu.stack = i.stackAfter c := by
  cases i with
  | ret =>
      simp only [execute, Instruction.stackAfter]
      split
      · rename_i h
        rw [h, List.tail_nil]
      · rename_i h
        rw [h, List.tail_cons]
  | call a | draw x y rows | waitKey x =>
      simp only [execute, Instruction.stackAfter]
      split <;> rfl
  | skipEqByte x b | skipNeByte x b | skipEq x y | skipNe x y | skipKey x | skipNotKey x =>
      simp only [execute, Instruction.stackAfter, Cpu.skipIf]
      split <;> rfl
  | shiftRight x y | shiftLeft x y => rfl
  | storeDigits x =>
      rcases c.writeBlock_cases (Cpu.decimalDigits (c.reg x)) with ⟨-, f, h⟩ | ⟨-, memory, h⟩ <;>
        simp only [execute, Instruction.stackAfter, h]
  | storeRegisters x =>
      rcases c.writeBlock_cases (c.registers.toList.take (Cpu.blockSize x)) with
        ⟨-, f, h⟩ | ⟨-, memory, h⟩ <;>
        simp only [execute, Instruction.stackAfter, h, Cpu.stack_afterTransfer]
  | loadRegisters x =>
      rcases c.readBlock_cases (Cpu.blockSize_lt x) with ⟨-, f, h⟩ | ⟨-, data, h⟩ <;>
        simp only [execute, Instruction.stackAfter, h, Cpu.stack_afterTransfer]
  | _ => rfl

theorem execute_pc : ((execute o byte i c d).cpu.pc.toNat : Int) = i.pcAfter c d % 0x10000 := by
  -- What leaves the program counter alone leaves a sixteen-bit number.
  have hstays := Word.toNat_emod c.pc
  cases i with
  | ret =>
      simp only [execute, Instruction.pcAfter]
      split
      · rename_i h
        rw [h]
        exact hstays
      · rename_i a rest h
        rw [h]
        exact Word.toNat_emod a
  | call a =>
      simp only [execute, Instruction.pcAfter]
      split
      · exact hstays
      · exact Word.toNat_emod a
  | jump a => exact Word.toNat_emod a
  | jumpOffset a =>
      simp only [execute, Instruction.pcAfter]
      rw [Word.toNat_add_emod, UInt8.toNat_toUInt16]
  | skipEqByte x b | skipNeByte x b | skipEq x y | skipNe x y | skipKey x | skipNotKey x =>
      exact c.toNat_pc_skipIf _
  | draw x y rows =>
      simp only [execute]
      split <;> exact hstays
  | waitKey x =>
      simp only [execute, Instruction.pcAfter]
      rcases KeyQueue.waitPop_cases d.keys with
        ⟨hclosed, h⟩ | ⟨hopen, -, h⟩ | ⟨k, ks, hopen, -, h⟩
      · rw [h, hclosed]
        exact Word.toNat_sub_emod c.pc 2
      · rw [h, hopen]
        exact hstays
      · rw [h, hopen]
        exact hstays
  | storeDigits x =>
      rcases c.writeBlock_cases (Cpu.decimalDigits (c.reg x)) with ⟨-, f, h⟩ | ⟨-, memory, h⟩ <;>
        simp only [execute, h] <;> exact hstays
  | storeRegisters x =>
      rcases c.writeBlock_cases (c.registers.toList.take (Cpu.blockSize x)) with
        ⟨-, f, h⟩ | ⟨-, memory, h⟩ <;>
        simp only [execute, h, Cpu.pc_afterTransfer] <;> exact hstays
  | loadRegisters x =>
      rcases c.readBlock_cases (Cpu.blockSize_lt x) with ⟨-, f, h⟩ | ⟨-, data, h⟩ <;>
        simp only [execute, h, Cpu.pc_afterTransfer] <;> exact hstays
  | _ => exact hstays

theorem execute_index :
    ((execute o byte i c d).cpu.index.toNat : Int) = i.indexAfter o c % 0x10000 := by
  have hstays := Word.toNat_emod c.index
  cases i with
  | setIndex a => exact Word.toNat_emod a
  | addIndex x =>
      simp only [execute, Instruction.indexAfter]
      rw [Word.toNat_add_emod, UInt8.toNat_toUInt16]
  | glyph x =>
      simp only [execute, Instruction.indexAfter, Font.toNat_address]
      -- The last glyph lies far below the end of the sixteen-bit numbers.
      simp only [Font.start, Font.limit, Font.height]
      omega
  | storeRegisters x =>
      simp only [execute, Instruction.indexAfter]
      rcases c.writeBlock_cases (c.registers.toList.take (Cpu.blockSize x)) with
        ⟨hout, f, h⟩ | ⟨hin, memory, h⟩
      · rw [Cpu.length_take_blockSize] at hout
        simp only [h, Cpu.indexAfterTransfer, hout, and_false, ↓reduceIte]
        exact hstays
      · rw [Cpu.length_take_blockSize] at hin
        rw [h]
        exact Cpu.toNat_index_afterTransfer o hin
  | loadRegisters x =>
      simp only [execute, Instruction.indexAfter]
      rcases c.readBlock_cases (Cpu.blockSize_lt x) with ⟨hout, f, h⟩ | ⟨hin, data, h⟩
      · simp only [h, Cpu.indexAfterTransfer, hout, and_false, ↓reduceIte]
        exact hstays
      · rw [h]
        exact Cpu.toNat_index_afterTransfer o hin
  | draw x y rows | waitKey x | ret | call a =>
      simp only [execute]
      split <;> exact hstays
  | skipEqByte x b | skipNeByte x b | skipEq x y | skipNe x y | skipKey x | skipNotKey x =>
      simp only [execute, Cpu.skipIf]
      split <;> exact hstays
  | storeDigits x =>
      rcases c.writeBlock_cases (Cpu.decimalDigits (c.reg x)) with ⟨-, f, h⟩ | ⟨-, memory, h⟩ <;>
        simp only [execute, h] <;> exact hstays
  | _ => exact hstays

end Execute

end Chip8
