import Chip8.Proofs.Stores

/-!
# What an instruction leaves alone

Of everything that a processor and its devices are made of, an instruction
changes little, and which parts these are can be told from its kind.
`Instruction.KeepsFrame` lists the parts one by one, each with the kinds that may
change it and how far they may go; what is not named there is as it was before.

What an instruction leaves of the memory, the devices, the stack and the two
addresses is known (`execute_memory`, `execute_devices`, `execute_stack`,
`execute_pc`, `execute_index`).  Here it is compared with what was there before,
and the registers are added (`reg_execute`).
-/

set_option autoImplicit false

namespace Chip8

namespace Instruction

/-! ## Kinds -/

/-- The registers that an instruction may write. -/
def WritesReg (i : Instruction) (z : Register) : Prop :=
  match i with
  | .setByte x _ | .addByte x _ | .random x _ | .getDelay x | .waitKey x => z = x
  | .copy x _ | .or x _ | .and x _ | .xor x _ => z = x
  | .add x _ | .sub x _ | .subFrom x _ | .shiftRight x _ | .shiftLeft x _ => z = x ∨ z = .flag
  | .draw _ _ _ => z = .flag
  | .loadRegisters x => z ≤ x
  | _ => False

/-- The instruction clears the screen or draws on it. -/
def mayPaint : Instruction → Bool
  | .clear => true
  | .draw _ _ _ => true
  | _ => false

/-- The instruction may take the oldest key. -/
def mayTakeKey : Instruction → Bool
  | .skipKey _ => true
  | .waitKey _ => true
  | _ => false

/-! ## The frame -/

/-- What may become of the call stack: a call puts the program counter on top of
it, and a return takes the top away. -/
def KeepsStack (i : Instruction) (c c' : Cpu) : Prop :=
  match i with
  | .call _ => c'.stack = c.pc :: c.stack
  | .ret => ∃ a, c.stack = a :: c'.stack
  | _ => c'.stack = c.stack

/-- What may become of `I`: three kinds load it or add to it, and a block transfer
moves it behind the block if the options say so. -/
def KeepsIndex (o : Options) (i : Instruction) (c c' : Cpu) : Prop :=
  match i with
  | .setIndex _ | .addIndex _ | .glyph _ => True
  | .storeRegisters x | .loadRegisters x =>
      c'.index.toNat = c.index.toNat + if o.transfersAdvance then x.val + 1 else 0
  | _ => c'.index = c.index

/-- What may become of the program counter: four kinds jump, six may skip, and
one that waits for a key goes back if the queue is closed. -/
def KeepsPc (i : Instruction) (c : Cpu) (d : Devices) (c' : Cpu) : Prop :=
  match i with
  | .jump _ | .jumpOffset _ | .call _ | .ret => True
  | .skipEqByte _ _ | .skipNeByte _ _ | .skipEq _ _ | .skipNe _ _
  | .skipKey _ | .skipNotKey _ => c'.pc = c.pc ∨ c'.pc = c.pc + 2
  | .waitKey _ => c'.pc = if d.keys.closed then c.pc - 2 else c.pc
  | _ => c'.pc = c.pc

/-- An effect goes no further than the kind of the instruction allows. -/
structure KeepsFrame (o : Options) (i : Instruction) (c : Cpu) (d : Devices) (e : Effect) :
    Prop where
  /-- Memory changes inside the block that is stored at `I`. -/
  memory : ∀ a (h : a < 0x1000),
    ¬(c.index.toNat ≤ a ∧ a < c.index.toNat + i.storeSize) →
      e.cpu.memory.bytes[a] = c.memory.bytes[a]
  /-- Registers change if they are written. -/
  registers : ∀ z, ¬i.WritesReg z → e.cpu.reg z = c.reg z
  /-- A random byte has no bit outside its mask. -/
  random : ∀ x m, i = .random x m →
    ∀ k, (e.cpu.reg x).toNat.testBit k = true → m.toNat.testBit k = true
  stack : i.KeepsStack c e.cpu
  index : i.KeepsIndex o c e.cpu
  pc : i.KeepsPc c d e.cpu
  /-- The picture changes, and the mark that tells of a change, if something is painted. -/
  screen : i.mayPaint = false → e.devices.screen = d.screen
  delay : (∀ x, i ≠ .setDelay x) → e.devices.delay = d.delay
  sound : (∀ x, i ≠ .setSound x) → e.devices.sound = d.sound
  /-- No more than the oldest key is taken, and the queue is neither opened nor closed. -/
  keys : e.devices.keys = d.keys ∨
    i.mayTakeKey = true ∧ ∃ k ks, d.keys.keys = k :: ks ∧ e.devices.keys = ⟨ks, d.keys.closed⟩
  /-- The news that the run is over is neither given nor taken back. -/
  down : e.devices.down = d.down

end Instruction

/-! ## The processor -/

section Processor

variable (o : Options) (byte : UInt8) {i : Instruction} {c : Cpu} {d : Devices}

theorem memory_execute {a : Nat} (ha : a < 0x1000)
    (h : ¬(c.index.toNat ≤ a ∧ a < c.index.toNat + i.storeSize)) :
    (execute o byte i c d).cpu.memory.bytes[a] = c.memory.bytes[a] :=
  byte_execute ha fun hwrites => h hwrites.2

theorem Cpu.reg_afterTransfer (c : Cpu) (count : Nat) (z : Register) :
    (c.afterTransfer o count).reg z = c.reg z := by
  unfold afterTransfer
  split <;> rfl

theorem Cpu.pc_skipIf_cases (c : Cpu) (condition : Bool) :
    (c.skipIf condition).pc = c.pc ∨ (c.skipIf condition).pc = c.pc + 2 := by
  unfold skipIf
  split
  · exact Or.inr rfl
  · exact Or.inl rfl

theorem Cpu.reg_setReg_of_ne {x z : Register} (h : z ≠ x) (v : UInt8) :
    (c.setReg x v).reg z = c.reg z := by
  rw [reg_setReg, if_neg (Ne.symm h)]

theorem Cpu.reg_setWithFlag_of_ne {x z : Register} (h : ¬(z = x ∨ z = .flag)) (v f : UInt8) :
    (c.setWithFlag x v f).reg z = c.reg z := by
  obtain ⟨hx, hflag⟩ := not_or.mp h
  rw [setWithFlag, reg_setReg_of_ne hflag, reg_setReg_of_ne hx]

/-- A block that is loaded reaches up to the register that is named. -/
theorem Cpu.reg_loaded {x z : Register} {data : List UInt8} (h : ¬z ≤ x)
    (hlen : data.length = blockSize x) :
    ({ c with registers := overlay c.registers 0 data } : Cpu).reg z = c.reg z := by
  have hz : x.val < z.val := Nat.lt_of_not_le h
  have houtside : 0 + data.length ≤ z.val := by
    rw [hlen, blockSize]
    omega
  exact getElem_overlay_of_outside z.isLt (Or.inr houtside)

/-- A register that an instruction does not write stays as it is. -/
theorem reg_execute {z : Register} (h : ¬i.WritesReg z) :
    (execute o byte i c d).cpu.reg z = c.reg z := by
  cases i with
  | setByte x b | addByte x b | random x m | getDelay x => exact Cpu.reg_setReg_of_ne h _
  | copy x y | or x y | and x y | xor x y => exact Cpu.reg_setReg_of_ne h _
  | add x y | sub x y | subFrom x y | shiftRight x y | shiftLeft x y =>
      exact Cpu.reg_setWithFlag_of_ne h _ _
  | draw x y rows =>
      simp only [execute]
      split
      · rfl
      · exact Cpu.reg_setReg_of_ne h _
  | waitKey x =>
      simp only [execute]
      split
      · exact Cpu.reg_setReg_of_ne h _
      · rfl
      · rfl
  | loadRegisters x =>
      cases hread : c.readBlock (Cpu.blockSize x) with
      | error f => simp only [execute, hread]
      | ok data =>
          have hlen := c.length_readBlock (Cpu.blockSize_lt x) hread
          simp only [execute, hread]
          rw [Cpu.reg_afterTransfer, Cpu.reg_loaded h hlen]
  | storeDigits x =>
      rcases c.writeBlock_cases (Cpu.decimalDigits (c.reg x)) with
        ⟨-, f, hwrite⟩ | ⟨-, memory, hwrite⟩
      · simp only [execute, hwrite]
      · simp only [execute, hwrite]
        rfl
  | storeRegisters x =>
      rcases c.writeBlock_cases (c.registers.toList.take (Cpu.blockSize x)) with
        ⟨-, f, hwrite⟩ | ⟨-, memory, hwrite⟩
      · simp only [execute, hwrite]
      · simp only [execute, hwrite, Cpu.reg_afterTransfer]
        rfl
  | ret | call a =>
      simp only [execute]
      split <;> rfl
  | skipEqByte x b | skipNeByte x b | skipEq x y | skipNe x y | skipKey x | skipNotKey x =>
      exact Cpu.reg_skipIf c _ z
  | _ => rfl

/-- What is taken at random stays within the mask. -/
theorem reg_execute_random {x : Register} {m : UInt8} {k : Nat}
    (h : ((execute o byte (.random x m) c d).cpu.reg x).toNat.testBit k = true) :
    m.toNat.testBit k = true := by
  have hreg : (execute o byte (.random x m) c d).cpu.reg x = byte &&& m := by
    simp only [execute, Cpu.reg_setReg, ↓reduceIte]
  rw [hreg, UInt8.toNat_and, Nat.testBit_and, Bool.and_eq_true] at h
  exact h.2

theorem pc_execute_of_pcAfter (h : i.pcAfter c d = c.pc.toNat) :
    (execute o byte i c d).cpu.pc = c.pc := by
  have hpc := execute_pc o byte i c d
  rw [h, ← Word.toNat_emod] at hpc
  exact UInt16.toNat_inj.mp (Int.ofNat_inj.mp hpc)

theorem index_execute_of_indexAfter (h : i.indexAfter o c = c.index.toNat) :
    (execute o byte i c d).cpu.index = c.index := by
  have hindex := execute_index o byte i c d
  rw [h, ← Word.toNat_emod] at hindex
  exact UInt16.toNat_inj.mp (Int.ofNat_inj.mp hindex)

/-- Behind a block that was moved there is an address. -/
theorem toNat_index_of_transfer {count : Nat}
    (hafter : i.indexAfter o c = c.indexAfterTransfer o count)
    (hin : c.index.toNat + count ≤ Memory.size) :
    (execute o byte i c d).cpu.index.toNat =
      c.index.toNat + if o.transfersAdvance then count else 0 := by
  have hindex := execute_index o byte i c d
  rw [hafter, Cpu.indexAfterTransfer] at hindex
  have hsize : Memory.size = 0x1000 := rfl
  by_cases hmoves : o.transfersAdvance = true
  · rw [if_pos ⟨hmoves, hin⟩] at hindex
    rw [if_pos hmoves]
    omega
  · rw [if_neg fun hboth => hmoves hboth.1] at hindex
    rw [if_neg hmoves]
    omega

end Processor

/-! ## Instructions that are carried out -/

section Done

variable {o : Options} {byte : UInt8} {i : Instruction} {c : Cpu} {d : Devices}
  (h : (execute o byte i c d).outcome = .done)

include h

theorem fault?_of_done : i.fault? c = none := by
  cases hfault : i.fault? c with
  | none => rfl
  | some f =>
      rw [execute_of_fault o byte d hfault] at h
      cases h

theorem keepsStack_of_done : i.KeepsStack c (execute o byte i c d).cpu := by
  have hstack := execute_stack o byte i c d
  have hsound := fault?_of_done h
  cases i with
  | call a =>
      have hroom : c.stack.length ≠ Cpu.stackDepth := fun hfull => by
        simp [Instruction.fault?, hfull] at hsound
      rwa [Instruction.stackAfter, if_neg hroom] at hstack
  | ret =>
      cases hopen : c.stack with
      | nil => simp [Instruction.fault?, hopen] at hsound
      | cons a rest =>
          rw [Instruction.stackAfter, hopen, List.tail_cons] at hstack
          exact ⟨a, by rw [hopen, hstack]⟩
  | _ => exact hstack

theorem room_of_transfer {count : Nat} (hblock : i.fault? c = c.blockFault? count) :
    c.index.toNat + count ≤ Memory.size := by
  have hsound := fault?_of_done h
  rw [hblock, Cpu.blockFault?] at hsound
  by_contra hout
  rw [if_neg hout] at hsound
  cases hsound

theorem keepsIndex_of_done : i.KeepsIndex o c (execute o byte i c d).cpu := by
  cases i with
  | setIndex a | addIndex x | glyph x => trivial
  | storeRegisters x | loadRegisters x =>
      exact toNat_index_of_transfer o byte rfl (room_of_transfer h rfl)
  | _ => exact index_execute_of_indexAfter o byte rfl

theorem keepsPc_of_done : i.KeepsPc c d (execute o byte i c d).cpu := by
  cases i with
  | jump a | jumpOffset a | call a | ret => trivial
  | skipEqByte x b | skipNeByte x b | skipEq x y | skipNe x y | skipKey x | skipNotKey x =>
      exact Cpu.pc_skipIf_cases c _
  | waitKey x =>
      change (execute o byte (.waitKey x) c d).cpu.pc = if d.keys.closed then c.pc - 2 else c.pc
      simp only [execute]
      rcases KeyQueue.waitPop_cases d.keys with
        ⟨hclosed, hwait⟩ | ⟨hopen, -, hwait⟩ | ⟨k, ks, hopen, -, hwait⟩
      · simp only [hwait, hclosed, ↓reduceIte]
      · simp [hwait, hopen]
      · simp [hwait, hopen, Cpu.setReg]
  | _ => exact pc_execute_of_pcAfter o byte rfl

end Done

/-! ## The devices -/

section Surroundings

variable (o : Options) (byte : UInt8) {i : Instruction} {c : Cpu} {d : Devices}

theorem screen_execute (h : i.mayPaint = false) :
    (execute o byte i c d).devices.screen = d.screen := by
  rw [execute_devices]
  cases i with
  | clear | draw x y rows => cases h
  | _ => rfl

theorem delay_execute (h : ∀ x, i ≠ .setDelay x) :
    (execute o byte i c d).devices.delay = d.delay := by
  rw [execute_devices]
  cases i with
  | setDelay x => exact absurd rfl (h x)
  | draw x y rows =>
      simp only [Instruction.devicesAfter]
      split <;> rfl
  | _ => rfl

theorem sound_execute_of_ne (h : ∀ x, i ≠ .setSound x) :
    (execute o byte i c d).devices.sound = d.sound := by
  rw [execute_devices]
  cases i with
  | setSound x => exact absurd rfl (h x)
  | draw x y rows =>
      simp only [Instruction.devicesAfter]
      split <;> rfl
  | _ => rfl

theorem keys_execute :
    (execute o byte i c d).devices.keys = d.keys ∨
      i.mayTakeKey = true ∧ ∃ k ks, d.keys.keys = k :: ks ∧
        (execute o byte i c d).devices.keys = ⟨ks, d.keys.closed⟩ := by
  rw [execute_devices]
  cases i with
  | skipKey x =>
      rcases KeyQueue.popIf_cases d.keys (c.reg x) with ⟨k, ks, hkeys, -, hpop⟩ | ⟨-, hpop⟩
      · exact Or.inr ⟨rfl, k, ks, hkeys, by simp only [Instruction.devicesAfter, hpop]⟩
      · exact Or.inl (by simp only [Instruction.devicesAfter, hpop])
  | waitKey x =>
      rcases KeyQueue.waitPop_cases d.keys with
        ⟨-, hwait⟩ | ⟨-, -, hwait⟩ | ⟨k, ks, -, hkeys, hwait⟩
      · exact Or.inl (by simp only [Instruction.devicesAfter, hwait])
      · exact Or.inl (by simp only [Instruction.devicesAfter, hwait])
      · exact Or.inr ⟨rfl, k, ks, hkeys, by simp only [Instruction.devicesAfter, hwait]⟩
  | draw x y rows =>
      left
      simp only [Instruction.devicesAfter]
      split <;> rfl
  | _ => exact Or.inl rfl

end Surroundings

/-- **Instructions keep their frame.**  An instruction that is carried out changes
what its kind allows and nothing else, whatever its operands, the state, the
options and the random byte.  The options are given to it and are no part of what
it leaves behind. -/
theorem instructions_keep_their_frame (o : Options) (byte : UInt8) (i : Instruction) (c : Cpu)
    (d : Devices) (h : (execute o byte i c d).outcome = .done) :
    i.KeepsFrame o c d (execute o byte i c d) where
  memory := fun _ ha hout => memory_execute o byte ha hout
  registers := fun _ hz => reg_execute o byte hz
  random := by
    rintro x m rfl k hbit
    exact reg_execute_random o byte hbit
  stack := keepsStack_of_done h
  index := keepsIndex_of_done h
  pc := keepsPc_of_done h
  screen := screen_execute o byte
  delay := delay_execute o byte
  sound := sound_execute_of_ne o byte
  keys := keys_execute o byte
  down := execute_down o byte i c d

/-- A processor with just room for all its registers between `I` and the end of
memory. -/
def Cpu.lastRoom : Cpu :=
  { Cpu.cornered with index := 0xFF0 }

/-- What is left when all registers were stored in the last bytes of memory, and `I`
moves behind them. -/
def storedAtEnd : Effect :=
  execute ⟨0, true, false⟩ 0 (.storeRegisters .flag) .lastRoom .initial

/-- What is left when a wait for a key was given up though a key was pending. -/
def givenUp : Effect :=
  execute .standard 0 (.waitKey .flag) .lastRoom (Devices.initial.press (.ofByte 7)).closeKeys

/-- `instructions_keep_their_frame` for a block that is stored and for a wait. -/
theorem instructions_keep_their_frame_at_end :
    storedAtEnd.outcome = .done ∧ storedAtEnd.cpu.index.toNat = 0x1000 ∧
      storedAtEnd.cpu.memory.bytes[0xFEF] = 0x20 ∧ storedAtEnd.cpu.pc = 0x200 ∧
      givenUp.outcome = .done ∧ givenUp.cpu.pc = 0x1FE ∧ givenUp.devices.down = false := by
  have hstored : storedAtEnd.outcome = .done := by decide +kernel
  have hgivenUp : givenUp.outcome = .done := rfl
  have hstore := instructions_keep_their_frame _ _ _ _ _ hstored
  have hwait := instructions_keep_their_frame _ _ _ _ _ hgivenUp
  refine ⟨hstored, hstore.index, ?_, hstore.pc, hgivenUp, hwait.pc, hwait.down⟩
  exact (hstore.memory 0xFEF (by decide) (by decide)).trans (Vector.getElem_replicate _)

end Chip8
