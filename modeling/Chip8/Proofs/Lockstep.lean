import Chip8.Proofs.Ensemble
import Mathlib.Data.List.Chain

/-!
# Options in lockstep

The options on which machines differ touch two kinds of instructions.  A shift
reads one of two registers, which makes no difference if these are equal.  A
block transfer leaves `I` where it was or behind the block, which makes no
difference if the next instruction that has to do with `I` loads it anew.  So two
runs with different options stay in step as long as both is the case, but for
`I` between such a transfer and such a load.

The states of the two runs are related by `withIndices`: the second ensemble is
the first with other values in `I`.  An instruction that has nothing to do with
`I` carries any such value along (`execute_withIndex`), and one that loads `I`
forgets it (`execute_withIndex_of_setsIndex`).  One act is `perform_withIndices`,
and `performAll_withIndices` is the induction on the run.
-/

set_option autoImplicit false

namespace Chip8

/-! ## What instructions have to do with `I` -/

namespace Instruction

/-- The instruction moves a block, and may move `I` past it. -/
def isTransfer : Instruction → Bool
  | .storeRegisters _ => true
  | .loadRegisters _ => true
  | _ => false

/-- The instruction loads `I`, whatever it was. -/
def setsIndex : Instruction → Bool
  | .setIndex _ => true
  | .glyph _ => true
  | _ => false

/-- The instruction reads `I` or writes it. -/
def touchesIndex : Instruction → Bool
  | .setIndex _ => true
  | .glyph _ => true
  | .addIndex _ => true
  | .draw _ _ _ => true
  | .storeDigits _ => true
  | .storeRegisters _ => true
  | .loadRegisters _ => true
  | _ => false

/-- The registers of a shift. -/
def shifted? : Instruction → Option (Register × Register)
  | .shiftRight x y => some (x, y)
  | .shiftLeft x y => some (x, y)
  | _ => none

theorem touchesIndex_of_isTransfer {i : Instruction} (h : i.isTransfer = true) :
    i.touchesIndex = true := by
  cases i <;> first | rfl | cases h

end Instruction

/-- The processor with another address in `I`. -/
def Cpu.withIndex (c : Cpu) (v : UInt16) : Cpu :=
  { c with index := v }

/-- The effect with another address in `I`. -/
def Effect.withIndex (e : Effect) (v : UInt16) : Effect :=
  { e with cpu := e.cpu.withIndex v }

/-- The runner with another address in `I`. -/
def Runner.withIndex (r : Runner) (v : UInt16) : Runner :=
  { r with cpu := r.cpu.withIndex v }

@[simp] theorem Cpu.withIndex_index (c : Cpu) : c.withIndex c.index = c := rfl

@[simp] theorem Cpu.current_withIndex (c : Cpu) (v : UInt16) :
    (c.withIndex v).current = c.current := rfl

/-! ## One instruction -/

section Execute

variable (o o' : Options) (byte : UInt8) {i : Instruction} (c : Cpu) (d : Devices) (v : UInt16)

theorem Cpu.skipIf_withIndex (b : Bool) :
    (c.withIndex v).skipIf b = (c.skipIf b).withIndex v := by
  cases b <;> rfl

/-- An instruction that has nothing to do with `I` carries it along. -/
theorem execute_withIndex (h : i.touchesIndex = false) :
    execute o byte i (c.withIndex v) d = (execute o byte i c d).withIndex v := by
  cases i with
  | setIndex a => cases h
  | glyph x => cases h
  | addIndex x => cases h
  | draw x y rows => cases h
  | storeDigits x => cases h
  | storeRegisters x => cases h
  | loadRegisters x => cases h
  | ret =>
      cases hstack : c.stack with
      | nil => simp only [execute, Cpu.withIndex, hstack, Effect.withIndex]
      | cons a rest => simp only [execute, Cpu.withIndex, hstack, Effect.withIndex]
  | call a =>
      by_cases hfull : c.stack.length = Cpu.stackDepth
      · simp only [execute, Cpu.withIndex, hfull, Effect.withIndex, ↓reduceIte]
      · simp only [execute, Cpu.withIndex, hfull, Effect.withIndex, ↓reduceIte]
  | waitKey x =>
      rcases hpop : d.keys.waitPop with ⟨_ | _ | _, keys⟩
      all_goals
        simp only [execute, hpop]
        rfl
  | skipEqByte x b | skipNeByte x b | skipEq x b | skipNe x b | skipKey x | skipNotKey x =>
      simp only [execute, Cpu.skipIf_withIndex]
      rfl
  | _ => rfl

/-- An instruction that loads `I` does not see what it was. -/
theorem execute_withIndex_of_setsIndex (h : i.setsIndex = true) :
    execute o byte i (c.withIndex v) d = execute o byte i c d := by
  cases i with
  | setIndex a => rfl
  | glyph x => rfl
  | _ => cases h

theorem Cpu.shiftSource_of_eq {x y : Register}
    (h : o.shiftsReadSecond ≠ o'.shiftsReadSecond → c.reg x = c.reg y) :
    c.shiftSource o' x y = c.shiftSource o x y := by
  by_cases hsame : o.shiftsReadSecond = o'.shiftsReadSecond
  · simp only [Cpu.shiftSource, hsame]
  · simp only [Cpu.shiftSource, h hsame, ite_self]

theorem Cpu.afterTransfer_cases (count : Nat) :
    c.afterTransfer o' count = c.afterTransfer o count ∨
      o.transfersAdvance ≠ o'.transfersAdvance ∧
        ∃ v, c.afterTransfer o' count = (c.afterTransfer o count).withIndex v := by
  by_cases hsame : o.transfersAdvance = o'.transfersAdvance
  · simp only [Cpu.afterTransfer, hsame, true_or]
  · refine Or.inr ⟨hsame, (c.afterTransfer o' count).index, ?_⟩
    unfold Cpu.afterTransfer
    split <;> split <;> rfl

/-- Options make no difference, or only that `I` moves in a block transfer. -/
theorem execute_options
    (h : o.shiftsReadSecond ≠ o'.shiftsReadSecond →
      ∀ p ∈ i.shifted?, c.reg p.1 = c.reg p.2) :
    execute o' byte i c d = execute o byte i c d ∨
      o.transfersAdvance ≠ o'.transfersAdvance ∧ i.isTransfer = true ∧
        (execute o byte i c d).outcome = .done ∧
        ∃ v, execute o' byte i c d = (execute o byte i c d).withIndex v := by
  cases i with
  | shiftRight x y =>
      left
      simp only [execute, Cpu.shiftRight,
        Cpu.shiftSource_of_eq o o' c fun hdiff => h hdiff (x, y) rfl]
  | shiftLeft x y =>
      left
      simp only [execute, Cpu.shiftLeft,
        Cpu.shiftSource_of_eq o o' c fun hdiff => h hdiff (x, y) rfl]
  | storeRegisters x =>
      cases hwrite : c.writeBlock (c.registers.toList.take (Cpu.blockSize x)) with
      | error f =>
          left
          simp only [execute, hwrite]
      | ok c' =>
          rcases Cpu.afterTransfer_cases o o' c' (Cpu.blockSize x) with hsame | ⟨hdiff, v, hv⟩
          · left
            simp only [execute, hwrite, hsame]
          · right
            refine ⟨hdiff, rfl, ?_, v, ?_⟩
            · simp only [execute, hwrite]
            · simp only [execute, hwrite, hv, Effect.withIndex]
  | loadRegisters x =>
      cases hread : c.readBlock (Cpu.blockSize x) with
      | error f =>
          left
          simp only [execute, hread]
      | ok data =>
          rcases Cpu.afterTransfer_cases o o' { c with registers := overlay c.registers 0 data }
            (Cpu.blockSize x) with hsame | ⟨hdiff, v, hv⟩
          · left
            simp only [execute, hread, hsame]
          · right
            refine ⟨hdiff, rfl, ?_, v, ?_⟩
            · simp only [execute, hread]
            · simp only [execute, hread, hv, Effect.withIndex]
  | _ => exact Or.inl rfl

end Execute

/-! ## One action -/

namespace Runner

variable (r : Runner) (v : UInt16)

@[simp] theorem isWaiting_withIndex : (r.withIndex v).isWaiting = r.isWaiting := rfl

theorem poised_withIndex :
    (r.withIndex v).poised? = r.poised?.map fun p => (p.1, p.2.withIndex v) := by
  unfold poised?
  cases hr : r.phase with
  | stepping =>
      cases hcurrent : r.cpu.current with
      | error f => simp [withIndex, hr, hcurrent, Except.toOption]
      | ok i =>
          simp only [withIndex, hr, Cpu.current_withIndex, hcurrent, Except.toOption,
            Option.map_some]
          rfl
  | waiting x => simp only [withIndex, hr, Option.map_some]
  | checking => simp only [withIndex, hr, Option.map_none]
  | ended f => simp only [withIndex, hr, Option.map_none]

/-- A runner without an instruction looks neither at the options nor at `I`. -/
theorem advance_withIndex_of_not_poised (o o' : Options) (byte : UInt8) (d : Devices)
    (h : r.poised? = none) :
    ((r.withIndex v).advance o' byte d).runner = (r.advance o byte d).runner.withIndex v := by
  unfold poised? at h
  unfold advance
  cases hr : r.phase with
  | stepping =>
      cases hfetch : r.cpu.fetch with
      | error e =>
          have hfetch' : (r.cpu.withIndex v).fetch = .error e := hfetch
          simp only [withIndex, hr, step, hfetch, hfetch', Action.ofEffect]
      | ok w =>
          have hfetch' : (r.cpu.withIndex v).fetch = .ok w := hfetch
          cases hword : Instruction.ofWord w with
          | error e =>
              simp only [withIndex, hr, step, hfetch, hfetch', hword, Action.ofEffect]
              rfl
          | ok i => simp [hr, Cpu.current, hfetch, hword, Except.toOption] at h
  | waiting x => simp [hr] at h
  | checking => simp only [withIndex, hr]
  | ended f => simp only [withIndex, hr]

end Runner

/-! ## What the runs have done -/

namespace Ensemble

namespace Deed

/-- Whether an instruction read `I` or wrote it. -/
def touchesIndex (d : Deed) : Bool :=
  d.instruction.touchesIndex

/-- Whether an instruction was a block transfer that was carried out. -/
def moves (d : Deed) : Bool :=
  d.instruction.isTransfer && d.outcome == .done

end Deed

/-- Every shift found equal values in its two registers. -/
def ShiftsAlike (deeds : List Deed) : Prop :=
  ∀ d ∈ deeds, ∀ p ∈ d.instruction.shifted?, d.cpu.reg p.1 = d.cpu.reg p.2

/-- After every block transfer the next instruction that touches `I` loads it. -/
def LoadsAfterMoves (deeds : List Deed) : Prop :=
  (deeds.filter Deed.touchesIndex).IsChain fun d e =>
    d.moves = true → e.instruction.setsIndex = true

/-- The last instruction that touched `I` was a block transfer. -/
def IndexMoved (deeds : List Deed) : Prop :=
  ∃ d ∈ (deeds.filter Deed.touchesIndex).getLast?, d.moves = true

section Deeds

variable {deeds : List Deed} {d : Deed}

theorem indexMoved_concat_of_not_touches (h : d.touchesIndex = false) :
    IndexMoved (deeds ++ [d]) ↔ IndexMoved deeds := by
  simp only [IndexMoved, List.filter_append, List.filter_cons, h, Bool.false_eq_true, ↓reduceIte,
    List.filter_nil, List.append_nil]

theorem indexMoved_concat_of_moves (h : d.moves = true) : IndexMoved (deeds ++ [d]) := by
  have htouch : d.touchesIndex = true :=
    Instruction.touchesIndex_of_isTransfer (Bool.and_eq_true_iff.mp h).1
  refine ⟨d, ?_, h⟩
  simp only [List.filter_append, List.filter_cons, htouch, ↓reduceIte, List.filter_nil,
    List.getLast?_append, List.getLast?_singleton, Option.some_or, Option.mem_some]

theorem LoadsAfterMoves.of_append {more : List Deed} (h : LoadsAfterMoves (deeds ++ more)) :
    LoadsAfterMoves deeds := by
  rw [LoadsAfterMoves, List.filter_append] at h
  exact (List.isChain_append.mp h).1

theorem LoadsAfterMoves.setsIndex (h : LoadsAfterMoves (deeds ++ [d])) (hmoved : IndexMoved deeds)
    (htouch : d.touchesIndex = true) : d.instruction.setsIndex = true := by
  rw [LoadsAfterMoves, List.filter_append] at h
  obtain ⟨e, hlast, hmoves⟩ := hmoved
  refine (List.isChain_append.mp h).2.2 e hlast d ?_ hmoves
  simp only [List.filter_cons, htouch, ↓reduceIte, List.head?_cons, Option.mem_some]

/-- What two runs may differ in: the second finds `w` in `I`, which is what the
first finds if options agree or no block transfer is in the way. -/
def IndexAgrees (o o' : Options) (deeds : List Deed) (w index : UInt16) : Prop :=
  w = index ∨ o.transfersAdvance ≠ o'.transfersAdvance ∧ IndexMoved deeds

/-- An instruction that finds what runs may differ in leaves no more than that. -/
theorem execute_of_indexAgrees (o o' : Options) (byte : UInt8) (i : Instruction) (c : Cpu)
    (dev : Devices) {w : UInt16} (hw : IndexAgrees o o' deeds w c.index)
    (hshift : o.shiftsReadSecond ≠ o'.shiftsReadSecond →
      ∀ p ∈ i.shifted?, c.reg p.1 = c.reg p.2)
    (hload : o.transfersAdvance ≠ o'.transfersAdvance →
      LoadsAfterMoves (deeds ++ [⟨i, c, (execute o byte i c dev).outcome⟩])) :
    ∃ w', execute o' byte i (c.withIndex w) dev = (execute o byte i c dev).withIndex w' ∧
      IndexAgrees o o' (deeds ++ [⟨i, c, (execute o byte i c dev).outcome⟩]) w'
        (execute o byte i c dev).cpu.index := by
  cases htouch : i.touchesIndex with
  | false =>
      have hsame : execute o' byte i c dev = execute o byte i c dev := by
        rcases execute_options o o' byte c dev hshift with hsame | ⟨-, htransfer, -⟩
        · exact hsame
        · rw [Instruction.touchesIndex_of_isTransfer htransfer] at htouch
          cases htouch
      have hindex : (execute o byte i c dev).cpu.index = c.index :=
        congrArg (fun e => e.cpu.index) (execute_withIndex o byte c dev c.index htouch)
      refine ⟨w, ?_, ?_⟩
      · rw [execute_withIndex o' byte c dev w htouch, hsame]
      · have hkeep : (⟨i, c, (execute o byte i c dev).outcome⟩ : Deed).touchesIndex = false :=
          htouch
        rwa [IndexAgrees, hindex, indexMoved_concat_of_not_touches hkeep]
  | true =>
      have hforget : execute o' byte i (c.withIndex w) dev = execute o' byte i c dev := by
        rcases hw with rfl | ⟨hdiff, hmoved⟩
        · rw [Cpu.withIndex_index]
        · exact execute_withIndex_of_setsIndex o' byte c dev w
            ((hload hdiff).setsIndex hmoved htouch)
      rw [hforget]
      rcases execute_options o o' byte c dev hshift with
        hsame | ⟨hdiff, htransfer, hdone, v, hv⟩
      · exact ⟨_, hsame, Or.inl rfl⟩
      · refine ⟨v, hv, Or.inr ⟨hdiff, indexMoved_concat_of_moves ?_⟩⟩
        simp only [Deed.moves, htransfer, hdone, Bool.true_and, beq_self_eq_true]

end Deeds

end Ensemble

/-! ## One act -/

namespace Ensemble

variable {ι ε : Type}

/-- The ensemble with other addresses in `I`. -/
def withIndices (s : Ensemble ι) (v : ι → UInt16) : Ensemble ι :=
  { s with runners := fun j => (s.runners j).withIndex (v j) }

theorem withIndices_self (s : Ensemble ι) :
    s.withIndices (fun j => (s.runners j).cpu.index) = s := rfl

theorem executes_withIndices (s : Ensemble ι) (v : ι → UInt16) (a : Act ι ε) :
    (s.withIndices v).executes? a =
      (s.executes? a).map fun p => (p.1, p.2.1, p.2.2.1, p.2.2.2.withIndex (v p.1)) := by
  cases a with
  | advance j byte =>
      simp only [executes?, withIndices, Runner.poised_withIndex, Option.map_map]
      rfl
  | impose j byte i =>
      by_cases hwait : (s.runners j).isWaiting = true
      · simp only [executes?, withIndices, Runner.isWaiting_withIndex, hwait, ↓reduceIte,
          Option.map_none]
      · simp only [executes?, withIndices, Runner.isWaiting_withIndex, hwait]
        rfl
  | demand j => rfl
  | event e => rfl

variable [DecidableEq ι] (o o' : ι → Options) (s : Ensemble ι) (v : ι → UInt16) {a : Act ι ε}

theorem setRunner_withIndices (j : ι) (r : Runner) (w : UInt16) :
    (s.withIndices v).setRunner j (r.withIndex w) =
      (s.setRunner j r).withIndices (Function.update v j w) := by
  ext1
  · funext k
    by_cases hk : k = j
    · subst hk
      simp only [setRunner, withIndices, ↓reduceIte, Function.update_self]
    · simp only [setRunner, withIndices, hk, ↓reduceIte, Function.update_of_ne, ne_eq,
        not_false_eq_true]
  · rfl

theorem perform_advance_of_not_poised {j : ι} (byte : UInt8) (h : (s.runners j).poised? = none) :
    s.perform o (.advance j byte : Act ι ε) =
      s.setRunner j ((s.runners j).advance (o j) byte s.devices).runner := by
  simp only [perform, Runner.devices_advance_of_not_poised (o j) byte s.devices h]
  rfl

/-- An act that executes nothing looks neither at the options nor at `I`. -/
theorem perform_withIndices_of_not_executes (h : s.executes? a = none) :
    (s.withIndices v).perform o' a = (s.perform o a).withIndices v := by
  have hset : ∀ j r, (s.withIndices v).setRunner j (r.withIndex (v j)) =
      (s.setRunner j r).withIndices v := by
    intro j r
    rw [setRunner_withIndices, Function.update_eq_self]
  cases a with
  | event e => rfl
  | advance j byte =>
      have hpoised : (s.runners j).poised? = none := Option.map_eq_none_iff.mp h
      have hpoised' : ((s.runners j).withIndex (v j)).poised? = none := by
        rw [Runner.poised_withIndex, hpoised, Option.map_none]
      rw [perform_advance_of_not_poised o' (s.withIndices v) byte hpoised',
        perform_advance_of_not_poised o s byte hpoised, ← hset]
      exact congrArg ((s.withIndices v).setRunner j)
        (Runner.advance_withIndex_of_not_poised _ (v j) (o j) (o' j) byte s.devices hpoised)
  | demand j =>
      by_cases hwait : (s.runners j).isWaiting = true
      · simp only [perform, withIndices, Runner.isWaiting_withIndex, hwait, ↓reduceIte]
      · have hboth := hset j { s.runners j with phase := .stepping }
        simp only [perform, withIndices, Runner.isWaiting_withIndex, hwait]
        exact hboth
  | impose j byte i =>
      by_cases hwait : (s.runners j).isWaiting = true
      · simp only [perform, withIndices, Runner.isWaiting_withIndex, hwait, ↓reduceIte]
      · simp [executes?, hwait] at h

/-- What options and `I` make of an act that executes an instruction shows in
the effect of the instruction. -/
theorem perform_withIndices_of_executes {j : ι} {byte : UInt8} {i : Instruction} {c : Cpu}
    (h : s.executes? a = some (j, byte, i, c)) {w : UInt16}
    (heffect : execute (o' j) byte i (c.withIndex (v j)) s.devices =
      (execute (o j) byte i c s.devices).withIndex w) :
    (s.withIndices v).perform o' a = (s.perform o a).withIndices (Function.update v j w) := by
  have h' : (s.withIndices v).executes? a = some (j, byte, i, c.withIndex (v j)) := by
    rw [executes_withIndices, h, Option.map_some]
  rw [perform_of_executes o' h', perform_of_executes o h]
  have hset := setRunner_withIndices s v j (.ofEffect (execute (o j) byte i c s.devices)) w
  have hdev : (s.withIndices v).devices = s.devices := rfl
  rw [hdev, heffect]
  exact congrArg (fun t : Ensemble ι =>
    (⟨t.runners, (execute (o j) byte i c s.devices).devices⟩ : Ensemble ι)) hset

theorem index_perform_of_no_deed {j : ι} (h : s.deed? o j a = none) :
    ((s.perform o a).runners j).cpu.index = (s.runners j).cpu.index := by
  rcases runner_perform_of_no_deed o h with hsame | ⟨-, hcpu | ⟨-, hcpu⟩⟩
  · rw [hsame]
  · rw [hcpu]
  · rw [hcpu]
    rfl

/-- One act keeps two runs in step. -/
theorem perform_withIndices {deeds : ι → List Deed}
    (hv : ∀ j, IndexAgrees (o j) (o' j) (deeds j) (v j) (s.runners j).cpu.index)
    (hshift : ∀ j, (o j).shiftsReadSecond ≠ (o' j).shiftsReadSecond →
      ShiftsAlike (deeds j ++ (s.deed? o j a).toList))
    (hload : ∀ j, (o j).transfersAdvance ≠ (o' j).transfersAdvance →
      LoadsAfterMoves (deeds j ++ (s.deed? o j a).toList)) :
    ∃ v', (s.withIndices v).perform o' a = (s.perform o a).withIndices v' ∧
      ∀ j, IndexAgrees (o j) (o' j) (deeds j ++ (s.deed? o j a).toList) (v' j)
        ((s.perform o a).runners j).cpu.index := by
  have hidle : ∀ j, s.deed? o j a = none →
      IndexAgrees (o j) (o' j) (deeds j ++ (s.deed? o j a).toList) (v j)
        ((s.perform o a).runners j).cpu.index := by
    intro j hnone
    rw [index_perform_of_no_deed o s hnone, hnone, Option.toList_none, List.append_nil]
    exact hv j
  cases hexec : s.executes? a with
  | none =>
      refine ⟨v, perform_withIndices_of_not_executes o o' s v hexec, ?_⟩
      intro j
      apply hidle
      simp only [deed?, hexec]
  | some p =>
      obtain ⟨k, byte, i, c⟩ := p
      have hindex : (s.runners k).cpu.index = c.index := by
        rcases cpu_of_executes hexec with rfl | ⟨-, rfl⟩ <;> rfl
      have hdeed := deed_of_executes o hexec
      have hshiftk := hshift k
      have hloadk := hload k
      have hvk := hv k
      rw [hdeed, Option.toList_some] at hshiftk hloadk
      rw [hindex] at hvk
      obtain ⟨w, heffect, hw⟩ := execute_of_indexAgrees (o k) (o' k) byte i c s.devices hvk
        (fun hdiff => hshiftk hdiff _ List.mem_concat_self) hloadk
      refine ⟨Function.update v k w, perform_withIndices_of_executes o o' s v hexec heffect, ?_⟩
      intro j
      by_cases hj : j = k
      · subst hj
        rw [hdeed, Function.update_self, runner_perform_of_executes o hexec]
        exact hw
      · rw [Function.update_of_ne hj]
        apply hidle
        simp only [deed?, hexec, Ne.symm hj, ↓reduceIte]

/-! ## The run -/

theorem performAll_withIndices (acts : List (Act ι ε))
    (hshift : ∀ j, (o j).shiftsReadSecond ≠ (o' j).shiftsReadSecond →
      ShiftsAlike (deeds o j s acts))
    (hload : ∀ j, (o j).transfersAdvance ≠ (o' j).transfersAdvance →
      LoadsAfterMoves (deeds o j s acts)) :
    ∃ v, s.performAll o' acts = (s.performAll o acts).withIndices v ∧
      ∀ j, IndexAgrees (o j) (o' j) (deeds o j s acts) (v j)
        ((s.performAll o acts).runners j).cpu.index := by
  induction acts using List.reverseRecOn with
  | nil => exact ⟨fun j => (s.runners j).cpu.index, rfl, fun j => Or.inl rfl⟩
  | append_singleton acts a ih =>
      simp only [deeds_concat, performAll_concat] at hshift hload ⊢
      obtain ⟨v, hrun, hv⟩ := ih
        (fun j hdiff d hd => hshift j hdiff d (List.mem_append_left _ hd))
        (fun j hdiff => (hload j hdiff).of_append)
      rw [hrun]
      exact perform_withIndices o o' _ v hv hshift hload

/-- **Options in lockstep.**  Two runs start in the same state and go through the
same acts, with the same random bytes, but with different options.  If their
shifts differ, every shift finds equal values in its registers, and if their
block transfers differ, every transfer that is carried out is followed by a load
of `I` before anything else touches `I`.  Then both have the same devices, and
their processors have the same memory, registers, program counter and stack and
are in the same phase, which tells how their last steps ended.  They have the
same `I` too, but between such a transfer and such a load.

The pause after a draw makes no difference at all. -/
theorem options_run_in_lockstep (acts : List (Act ι ε))
    (hshift : ∀ j, (o j).shiftsReadSecond ≠ (o' j).shiftsReadSecond →
      ShiftsAlike (deeds o j s acts))
    (hload : ∀ j, (o j).transfersAdvance ≠ (o' j).transfersAdvance →
      LoadsAfterMoves (deeds o j s acts)) :
    (s.performAll o' acts).devices = (s.performAll o acts).devices ∧
    (∀ j, ((s.performAll o' acts).runners j).phase = ((s.performAll o acts).runners j).phase ∧
      ((s.performAll o' acts).runners j).cpu.memory =
        ((s.performAll o acts).runners j).cpu.memory ∧
      ((s.performAll o' acts).runners j).cpu.registers =
        ((s.performAll o acts).runners j).cpu.registers ∧
      ((s.performAll o' acts).runners j).cpu.pc = ((s.performAll o acts).runners j).cpu.pc ∧
      ((s.performAll o' acts).runners j).cpu.stack = ((s.performAll o acts).runners j).cpu.stack ∧
      (((s.performAll o' acts).runners j).cpu.index = ((s.performAll o acts).runners j).cpu.index ∨
        (o j).transfersAdvance ≠ (o' j).transfersAdvance ∧ IndexMoved (deeds o j s acts))) ∧
    ∀ pause : ι → Nat,
      s.performAll (fun j => { o j with drawDelay := pause j }) acts = s.performAll o acts := by
  refine ⟨?_, ?_, ?_⟩
  · obtain ⟨v, hrun, -⟩ := performAll_withIndices o o' s acts hshift hload
    rw [hrun]
    rfl
  · obtain ⟨v, hrun, hv⟩ := performAll_withIndices o o' s acts hshift hload
    intro j
    rw [hrun]
    exact ⟨rfl, rfl, rfl, rfl, rfl, hv j⟩
  · intro pause
    obtain ⟨v, hrun, hv⟩ := performAll_withIndices o
      (fun j => { o j with drawDelay := pause j }) s acts
      (fun j hdiff => absurd rfl hdiff) (fun j hdiff => absurd rfl hdiff)
    have hsame : v = fun j => ((s.performAll o acts).runners j).cpu.index := by
      funext j
      exact (hv j).resolve_right fun hdiff => absurd rfl hdiff.1
    rw [hrun, hsame, withIndices_self]

/-- A processor that is about to store two registers, to shift a register into
itself and to load `I`. -/
def mover : Ensemble Unit :=
  start (fun _ => { Cpu.initial with
    memory := ⟨overlay (Vector.replicate 0x1000 0) Memory.programStart
      [0xF1, 0x55, 0x81, 0x16, 0xA3, 0x00]⟩ }) .initial

/-- The three instructions, and a tick of the delay timer after the store. -/
def moving : List (Act Unit Unit) :=
  List.replicate 2 (.advance () 0) ++ .event .tickDelay :: List.replicate 4 (.advance () 0)

/-- `options_run_in_lockstep` where both quirks differ and both kinds of
instructions are executed. -/
theorem options_run_in_lockstep_mover :
    ShiftsAlike (deeds (fun _ => .standard) () mover moving) ∧
      LoadsAfterMoves (deeds (fun _ => .standard) () mover moving) ∧
      ¬ IndexMoved (deeds (fun _ => .standard) () mover moving) ∧
      (mover.performAll (fun _ => ⟨0, true, true⟩) moving).devices =
        (mover.performAll (fun _ => .standard) moving).devices ∧
      ((mover.performAll (fun _ => ⟨0, true, true⟩) moving).runners ()).cpu.registers =
        ((mover.performAll (fun _ => .standard) moving).runners ()).cpu.registers ∧
      ((mover.performAll (fun _ => ⟨0, true, true⟩) moving).runners ()).cpu.index =
        ((mover.performAll (fun _ => .standard) moving).runners ()).cpu.index := by
  have hshift : ShiftsAlike (deeds (fun _ => .standard) () mover moving) := by
    unfold ShiftsAlike
    decide +kernel
  have hload : LoadsAfterMoves (deeds (fun _ => .standard) () mover moving) := by
    unfold LoadsAfterMoves
    decide +kernel
  have hstill : ¬ IndexMoved (deeds (fun _ => .standard) () mover moving) := by
    unfold IndexMoved
    decide +kernel
  obtain ⟨hdev, hrunners, -⟩ := options_run_in_lockstep (fun _ => .standard)
    (fun _ => ⟨0, true, true⟩) mover moving (fun _ _ => hshift) (fun _ _ => hload)
  obtain ⟨-, -, hregisters, -, -, hindex⟩ := hrunners ()
  refine ⟨hshift, hload, hstill, hdev, hregisters, ?_⟩
  exact hindex.resolve_right fun hmoved => hstill hmoved.2

end Ensemble

end Chip8
