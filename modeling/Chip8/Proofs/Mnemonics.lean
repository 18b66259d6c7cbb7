import Chip8.Instruction.Mnemonic
import Chip8.Proofs.Encoding
import Chip8.Proofs.Numerals

/-!
# Reading mnemonics back

Many mnemonics begin alike, and what tells them apart stands in their operands: a
register, a number, or one of a few names.  `Instruction.read?` takes a text to
pieces at its blanks and puts the instruction together from the pieces.

The pieces come out as they went in, because none of them has a blank or a comma
of its own (`Spells.parts`).  Each kind of instruction is spelled so that its
pieces are read as that kind, with the same operands (`spelled`).  That is all:
what can be read back is not ambiguous.
-/

set_option autoImplicit false

namespace Chip8

/-! ## Operands -/

namespace Instruction

/-- Whether an operand is a number. -/
def isNumber (s : String) : Bool :=
  s.toList.all fun c => decide (c ∈ Hex.alphabet)

/-- Whether an operand is a register. -/
def isRegister (s : String) : Bool :=
  s.toList.head? == some 'V'

def readRegister (s : String) : Register :=
  Register.ofNat (Hex.read (s.toList.drop 1))

def readByte (s : String) : UInt8 :=
  UInt8.ofNat (Hex.read s.toList)

def readAddress (s : String) : UInt16 :=
  UInt16.ofNat (Hex.read s.toList)

theorem toList_name (x : Register) : x.name.toList = 'V' :: Hex.padded 1 x.val := by
  simp [Register.name]

@[simp] theorem isNumber_text (width n : Nat) : isNumber (Hex.text width n) = true := by
  simp only [isNumber, Hex.toList_text, List.all_eq_true, decide_eq_true_eq]
  exact fun c hc => Hex.mem_alphabet_of_mem_padded hc

@[simp] theorem isNumber_name (x : Register) : isNumber x.name = false := by
  simp [isNumber, toList_name, Hex.alphabet]

@[simp] theorem isRegister_name (x : Register) : isRegister x.name = true := by
  simp [isRegister, toList_name]

@[simp] theorem readRegister_name (x : Register) : readRegister x.name = x := by
  rw [readRegister, toList_name, List.drop_one, List.tail_cons, Hex.read_padded]
  exact Fin.ext (Nat.mod_eq_of_lt x.isLt)

@[simp] theorem readByte_text (width : Nat) (b : UInt8) :
    readByte (Hex.text width b.toNat) = b := by
  rw [readByte, Hex.toList_text, Hex.read_padded, UInt8.ofNat_toNat]

@[simp] theorem readAddress_text (width : Nat) (a : UInt16) :
    readAddress (Hex.text width a.toNat) = a := by
  rw [readAddress, Hex.toList_text, Hex.read_padded, UInt16.ofNat_toNat]

/-! ## Pieces -/

/-- There is no blank, no comma and no newline in a piece. -/
def Plain (s : String) : Prop :=
  ∀ c ∈ s.toList, c ≠ ' ' ∧ c ≠ ',' ∧ c ≠ '\n'

instance (s : String) : Decidable (Plain s) :=
  List.decidableBAll _ s.toList

@[simp] theorem plain_text (width n : Nat) : Plain (Hex.text width n) := by
  have hall : Plain (String.ofList Hex.alphabet) := by decide
  rw [Plain, String.toList_ofList] at hall
  intro c hc
  rw [Hex.toList_text] at hc
  exact hall c (Hex.mem_alphabet_of_mem_padded hc)

@[simp] theorem plain_name (x : Register) : Plain x.name := by
  intro c hc
  rw [toList_name, List.mem_cons] at hc
  rcases hc with rfl | hdigit
  · decide
  · exact plain_text 1 x.val c (by rwa [Hex.toList_text])

/-- How pieces make a mnemonic: an operator, and its operands if it has any. -/
inductive Spells : List String → String → Prop where
  | alone (name : String) : Spells [name] name
  | followed {operands : List String} (name : String) :
      operands ≠ [] → Spells (name :: operands) (operation name operands)

/-- The pieces of a text: what stands between its blanks, without the commas. -/
def parts (text : String) : List String :=
  ((text.toList.filter (· != ',')).splitOn ' ').map String.ofList

theorem filter_eq_self {l : List Char} (h : ',' ∉ l) : l.filter (· != ',') = l := by
  refine List.filter_eq_self.mpr fun c hc => bne_iff_ne.mpr ?_
  rintro rfl
  exact h hc

/-- Without the commas, only blanks are left between the operands. -/
theorem filter_intercalate {ls : List (List Char)} (h : ∀ l ∈ ls, ',' ∉ l) :
    ([',', ' '].intercalate ls).filter (· != ',') = [' '].intercalate ls := by
  induction ls with
  | nil => rfl
  | cons l ls ih =>
      have hl := filter_eq_self (h l List.mem_cons_self)
      have hrest := ih fun l' hl' => h l' (List.mem_cons_of_mem l hl')
      by_cases hnil : ls = []
      · subst hnil
        rwa [List.intercalate_singleton, List.intercalate_singleton]
      · rw [List.intercalate_cons_of_ne_nil hnil, List.intercalate_cons_of_ne_nil hnil,
          List.filter_append, List.filter_append, hl, hrest]
        rfl

theorem Spells.ne_nil {pieces : List String} {text : String} (h : Spells pieces text) :
    pieces ≠ [] := by
  cases h <;> exact List.cons_ne_nil _ _

theorem Spells.filter {pieces : List String} {text : String} (h : Spells pieces text)
    (hplain : ∀ l ∈ pieces.map String.toList, ',' ∉ l) :
    text.toList.filter (· != ',') = [' '].intercalate (pieces.map String.toList) := by
  cases h with
  | alone name =>
      rw [List.map_singleton, List.intercalate_singleton]
      exact filter_eq_self (hplain _ List.mem_cons_self)
  | @followed operands name hsome =>
      rw [List.map_cons] at hplain ⊢
      have hsome' : operands.map String.toList ≠ [] := mt List.map_eq_nil_iff.mp hsome
      rw [operation, String.toList_append, String.toList_append, String.toList_intercalate,
        List.filter_append, List.filter_append, List.intercalate_cons_of_ne_nil hsome',
        filter_eq_self (hplain _ List.mem_cons_self)]
      exact congrArg _ (filter_intercalate fun l hl => hplain l (List.mem_cons_of_mem _ hl))

/-- A mnemonic is taken to the pieces that it was made of. -/
theorem Spells.parts {pieces : List String} {text : String} (h : Spells pieces text)
    (hplain : ∀ s ∈ pieces, Plain s) : parts text = pieces := by
  have hplain' : ∀ l ∈ pieces.map String.toList, ' ' ∉ l ∧ ',' ∉ l := by
    intro l hl
    obtain ⟨s, hs, rfl⟩ := List.mem_map.mp hl
    exact ⟨fun hblank => (hplain s hs _ hblank).1 rfl, fun hcomma => (hplain s hs _ hcomma).2.1 rfl⟩
  have hsplit := List.splitOn_intercalate ' ' (fun l hl => (hplain' l hl).1)
    (mt List.map_eq_nil_iff.mp h.ne_nil)
  rw [Instruction.parts, h.filter fun l hl => (hplain' l hl).2, hsplit, List.map_map]
  simp

theorem mem_intercalate {c : Char} {sep : List Char} {ls : List (List Char)}
    (h : c ∈ sep.intercalate ls) : c ∈ sep ∨ ∃ l ∈ ls, c ∈ l := by
  induction ls with
  | nil => exact absurd h (by simp)
  | cons l ls ih =>
      by_cases hnil : ls = []
      · subst hnil
        rw [List.intercalate_singleton] at h
        exact Or.inr ⟨l, List.mem_cons_self, h⟩
      · rw [List.intercalate_cons_of_ne_nil hnil, List.mem_append, List.mem_append] at h
        rcases h with (hl | hsep) | hrest
        · exact Or.inr ⟨l, List.mem_cons_self, hl⟩
        · exact Or.inl hsep
        · exact (ih hrest).imp_right fun ⟨l', hl', hc⟩ => ⟨l', List.mem_cons_of_mem l hl', hc⟩

/-- A mnemonic stands on one line. -/
theorem Spells.newline_not_mem {pieces : List String} {text : String} (h : Spells pieces text)
    (hplain : ∀ s ∈ pieces, Plain s) : '\n' ∉ text.toList := by
  intro hmem
  have hpiece {s : String} (hs : s ∈ pieces) : '\n' ∉ s.toList :=
    fun hc => (hplain s hs _ hc).2.2 rfl
  cases h with
  | alone name => exact hpiece List.mem_cons_self hmem
  | followed name =>
      rw [operation, String.toList_append, String.toList_append, String.toList_intercalate,
        List.mem_append, List.mem_append] at hmem
      rcases hmem with (hname | hblank) | hoperands
      · exact hpiece List.mem_cons_self hname
      · exact absurd hblank (by decide)
      · rcases mem_intercalate hoperands with hcomma | ⟨l, hl, hc⟩
        · exact absurd hcomma (by decide)
        · obtain ⟨s, hs, rfl⟩ := List.mem_map.mp hl
          exact hpiece (List.mem_cons_of_mem name hs) hc

/-! ## The reader -/

/-- What is loaded into a register. -/
def loadRegister (x : Register) (operand : String) : Instruction :=
  if isNumber operand then .setByte x (readByte operand)
  else if isRegister operand then .copy x (readRegister operand)
  else if operand = "DT" then .getDelay x
  else if operand = "K" then .waitKey x
  else .loadRegisters x

/-- What is loaded into a place that is no register. -/
def loadPlace? (place operand : String) : Option Instruction :=
  match place with
  | "I" => some (.setIndex (readAddress operand))
  | "DT" => some (.setDelay (readRegister operand))
  | "ST" => some (.setSound (readRegister operand))
  | "F" => some (.glyph (readRegister operand))
  | "B" => some (.storeDigits (readRegister operand))
  | "[I]" => some (.storeRegisters (readRegister operand))
  | _ => none

/-- The instruction with one operand. -/
def unary? (name u : String) : Option Instruction :=
  match name with
  | "JP" => some (.jump (readAddress u))
  | "CALL" => some (.call (readAddress u))
  | "SKP" => some (.skipKey (readRegister u))
  | "SKNP" => some (.skipNotKey (readRegister u))
  | _ => none

/-- The instruction with two operands. -/
def binary? (name u v : String) : Option Instruction :=
  match name with
  | "JP" => some (.jumpOffset (readAddress v))
  | "SE" =>
      if isNumber v then some (.skipEqByte (readRegister u) (readByte v))
      else some (.skipEq (readRegister u) (readRegister v))
  | "SNE" =>
      if isNumber v then some (.skipNeByte (readRegister u) (readByte v))
      else some (.skipNe (readRegister u) (readRegister v))
  | "LD" => if isRegister u then some (loadRegister (readRegister u) v) else loadPlace? u v
  | "ADD" =>
      if isRegister u then
        if isNumber v then some (.addByte (readRegister u) (readByte v))
        else some (.add (readRegister u) (readRegister v))
      else some (.addIndex (readRegister v))
  | "OR" => some (.or (readRegister u) (readRegister v))
  | "AND" => some (.and (readRegister u) (readRegister v))
  | "XOR" => some (.xor (readRegister u) (readRegister v))
  | "SUB" => some (.sub (readRegister u) (readRegister v))
  | "SUBN" => some (.subFrom (readRegister u) (readRegister v))
  | "SHR" => some (.shiftRight (readRegister u) (readRegister v))
  | "SHL" => some (.shiftLeft (readRegister u) (readRegister v))
  | "RND" => some (.random (readRegister u) (readByte v))
  | _ => none

/-- The instruction that is spelled by these pieces. -/
def assemble? : List String → Option Instruction
  | ["CLS"] => some .clear
  | ["RET"] => some .ret
  | [name, u] => unary? name u
  | [name, u, v] => binary? name u v
  | ["DRW", x, y, n] => some (.draw (readRegister x) (readRegister y) (readByte n))
  | _ => none

/-- The instruction whose mnemonic a text is. -/
def read? (text : String) : Option Instruction :=
  assemble? (parts text)

/-- The mnemonic of an instruction is made of pieces that are read as this
instruction. -/
theorem spelled (i : Instruction) :
    ∃ pieces, Spells pieces i.mnemonic ∧ (∀ s ∈ pieces, Plain s) ∧ assemble? pieces = some i := by
  have hne {s : String} {rest : List String} : s :: rest ≠ [] := List.cons_ne_nil s rest
  -- The kinds go together that have operands of the same sorts, since the sort of an
  -- operand is what the reader asks for where several kinds have one name.
  cases i with
  | clear => exact ⟨_, .alone "CLS", by decide, rfl⟩
  | ret => exact ⟨_, .alone "RET", by decide, rfl⟩
  | jump a | call a =>
      refine ⟨_, .followed _ hne, ?_, ?_⟩
      · simp +decide [addressText]
      · simp [assemble?, unary?, addressText]
  | skipKey x | skipNotKey x =>
      refine ⟨_, .followed _ hne, ?_, ?_⟩
      · simp +decide
      · simp [assemble?, unary?]
  | skipEqByte x b | skipNeByte x b | setByte x b | addByte x b | random x b =>
      refine ⟨_, .followed _ hne, ?_, ?_⟩
      · simp +decide [byteText]
      · simp [assemble?, binary?, loadRegister, byteText]
  | skipEq x y | skipNe x y | copy x y | add x y | or x y | and x y | xor x y | sub x y
  | subFrom x y | shiftRight x y | shiftLeft x y =>
      refine ⟨_, .followed _ hne, ?_, ?_⟩
      · simp +decide
      · simp [assemble?, binary?, loadRegister]
  | getDelay x | waitKey x | loadRegisters x =>
      refine ⟨_, .followed _ hne, ?_, ?_⟩
      · simp +decide
      · simp +decide [assemble?, binary?, loadRegister]
  | setIndex a | jumpOffset a =>
      refine ⟨_, .followed _ hne, ?_, ?_⟩
      · simp +decide [addressText]
      · simp +decide [assemble?, binary?, loadPlace?, addressText]
  | setDelay x | setSound x | addIndex x | glyph x | storeDigits x | storeRegisters x =>
      refine ⟨_, .followed _ hne, ?_, ?_⟩
      · simp +decide
      · simp +decide [assemble?, binary?, loadPlace?]
  | draw x y rows =>
      refine ⟨_, .followed _ hne, ?_, ?_⟩
      · simp +decide [rowsText]
      · simp [assemble?, rowsText]

theorem read?_mnemonic (i : Instruction) : read? i.mnemonic = some i := by
  obtain ⟨pieces, hspells, hplain, hassemble⟩ := i.spelled
  rw [read?, hspells.parts hplain, hassemble]

theorem newline_not_mem_mnemonic (i : Instruction) : '\n' ∉ i.mnemonic.toList := by
  obtain ⟨pieces, hspells, hplain, -⟩ := i.spelled
  exact hspells.newline_not_mem hplain

theorem mnemonic_inj {i j : Instruction} : i.mnemonic = j.mnemonic ↔ i = j := by
  constructor
  · intro h
    rw [← Option.some_inj, ← read?_mnemonic i, h, read?_mnemonic]
  · rintro rfl
    rfl

/-- **Mnemonics are unambiguous.**  Instructions with the same text are the same,
whatever their operands are, also those that no word has room for.  Two words
that decode have the same text if and only if they are the same or twins. -/
theorem mnemonics_are_unambiguous :
    (∀ i j : Instruction, i.mnemonic = j.mnemonic ↔ i = j) ∧
    ∀ v w i j, ofWord v = .ok i → ofWord w = .ok j →
      (i.mnemonic = j.mnemonic ↔ v = w ∨ Twins v w) := by
  refine ⟨fun i j => mnemonic_inj, ?_⟩
  intro v w i j hv hw
  rw [mnemonic_inj]
  constructor
  · rintro rfl
    by_cases hne : v = w
    · exact Or.inl hne
    · exact Or.inr (twins_of_encodes (ofWord_eq_ok_iff_encodes.mp hv).2
        (ofWord_eq_ok_iff_encodes.mp hw).2 hne)
  · rintro (rfl | htwins)
    · exact Except.ok.inj (hv.symm.trans hw)
    · obtain ⟨k, hvk, hwk⟩ := htwins.decode
      exact Except.ok.inj ((hv.symm.trans hvk).trans (hwk.symm.trans hw))

/-- `mnemonics_are_unambiguous` for two words that differ in the open nibble, and for
two that begin with `LD` both. -/
theorem mnemonics_are_unambiguous_twins :
    ofWord 0x512F = .ok (.skipEq (.ofNat 1) (.ofNat 2)) ∧
      ofWord 0x5120 = .ok (.skipEq (.ofNat 1) (.ofNat 2)) ∧ Twins 0x512F 0x5120 ∧
      ofWord 0xF129 = .ok (.glyph (.ofNat 1)) ∧
      ofWord 0x61F1 = .ok (.setByte (.ofNat 1) 0xF1) ∧
      (glyph (.ofNat 1)).mnemonic ≠ (setByte (.ofNat 1) 0xF1).mnemonic := by
  have hglyph : ofWord 0xF129 = .ok (.glyph (.ofNat 1)) := rfl
  have hbyte : ofWord 0x61F1 = .ok (.setByte (.ofNat 1) 0xF1) := rfl
  have hskip : ofWord 0x512F = .ok (.skipEq (.ofNat 1) (.ofNat 2)) := rfl
  have hskip' : ofWord 0x5120 = .ok (.skipEq (.ofNat 1) (.ofNat 2)) := rfl
  have hcases := (mnemonics_are_unambiguous.2 _ _ _ _ hskip hskip').mp rfl
  refine ⟨hskip, hskip', hcases.resolve_left (by decide), hglyph, hbyte, ?_⟩
  rw [ne_eq, mnemonics_are_unambiguous.2 _ _ _ _ hglyph hbyte]
  decide

end Instruction

end Chip8
