import Chip8.Instruction.Decode

/-!
# Words for instructions

The instruction set is a table: it has a word for each kind of instruction, with
the operands in fixed nibbles of that word.  `Instruction.code` is this table.
It is read from instructions to words, while `Instruction.decode?` goes from
words to instructions through groups and groups within groups.

The operands are laid out in three ways (`nnn`, `xkk`, `xyn`).  For each of them
one lemma says that a word is laid out in this way with certain operands if and
only if these are the fields that are cut out of it, and the two directions of
`ofWord_eq_ok_iff_encodes` follow the groups of the decoder and the kinds of the
table.
-/

set_option autoImplicit false

namespace Chip8

/-! ## Layouts -/

namespace Layout

/-- The word `gnnn`: a group, and an address in nibbles 1 to 3. -/
def nnn (group address : Nat) : Nat :=
  0x1000 * group + address

/-- The word `gxkk`: a group, a register in nibble 3, and a byte in nibbles 1 and 2. -/
def xkk (group : Nat) (x : Register) (byte : Nat) : Nat :=
  0x1000 * group + 0x100 * x.val + byte

/-- The word `gxyn`: a group, registers in nibbles 3 and 2, and nibble 1. -/
def xyn (group : Nat) (x y : Register) (last : Nat) : Nat :=
  0x1000 * group + 0x100 * x.val + 0x10 * y.val + last

end Layout

namespace Instruction

/-! ## Fields -/

section Fields

variable {w : UInt16}

theorem fieldX_eq_iff {x : Register} : fieldX w = x ↔ w.toNat / 256 % 16 = x.val := by
  simp only [fieldX, Register.ofNat, Word.nibble_three, Fin.ext_iff, Nat.mod_mod]

theorem fieldY_eq_iff {y : Register} : fieldY w = y ↔ w.toNat / 16 % 16 = y.val := by
  simp only [fieldY, Register.ofNat, Word.nibble_two, Fin.ext_iff, Nat.mod_mod]

theorem toNat_fieldRows (w : UInt16) : (fieldRows w).toNat = Word.nibble 1 w := by
  have hlast := Word.nibble_lt 1 w
  rw [fieldRows, UInt8.toNat_ofNat_of_lt' (Nat.lt_trans hlast (by decide))]

theorem toNat_fieldByte (w : UInt16) : (fieldByte w).toNat = Word.nibbles 1 2 w :=
  UInt8.toNat_ofNat_of_lt' (Word.nibbles_lt 1 2 w)

theorem toNat_fieldAddress (w : UInt16) : (fieldAddress w).toNat = Word.nibbles 1 3 w := by
  have haddress : Word.nibbles 1 3 w < 0x1000 := Word.nibbles_lt 1 3 w
  rw [fieldAddress, UInt16.toNat_ofNat_of_lt' (Nat.lt_trans haddress (by decide))]

/-- A word has a group and an address if these are its fields. -/
theorem toNat_eq_nnn_iff {group address : Nat} (h : address < 0x1000) :
    w.toNat = Layout.nnn group address ↔
      Word.nibble 4 w = group ∧ Word.nibbles 1 3 w = address := by
  rw [Word.nibble_four, Word.nibbles_one_three, Layout.nnn]
  constructor
  · intro hw
    omega
  · rintro ⟨hgroup, haddress⟩
    omega

/-- A word has a group, a register and a byte if these are its fields. -/
theorem toNat_eq_xkk_iff {group : Nat} {x : Register} {byte : Nat} (h : byte < 0x100) :
    w.toNat = Layout.xkk group x byte ↔
      Word.nibble 4 w = group ∧ fieldX w = x ∧ Word.nibbles 1 2 w = byte := by
  have hx := x.isLt
  rw [Word.nibble_four, fieldX_eq_iff, Word.nibbles_one_two, Layout.xkk]
  constructor
  · intro hw
    omega
  · rintro ⟨hgroup, hfield, hbyte⟩
    omega

/-- A word has a group, two registers and a last nibble if these are its fields. -/
theorem toNat_eq_xyn_iff {group : Nat} {x y : Register} {last : Nat} (h : last < 0x10) :
    w.toNat = Layout.xyn group x y last ↔
      Word.nibble 4 w = group ∧ fieldX w = x ∧ fieldY w = y ∧ Word.nibble 1 w = last := by
  have hx := x.isLt
  have hy := y.isLt
  rw [Word.nibble_four, fieldX_eq_iff, fieldY_eq_iff, Word.nibble_one, Layout.xyn]
  constructor
  · intro hw
    omega
  · rintro ⟨hgroup, hfirst, hsecond, hlast⟩
    omega

end Fields

/-! ## The table -/

/-- The operands fit into the nibbles that a word has for them. -/
def InRange : Instruction → Prop
  | .jump a | .call a | .setIndex a | .jumpOffset a => a.toNat < 0x1000
  | .draw _ _ rows => rows.toNat < 0x10
  | _ => True

/-- The word of an instruction.  Two kinds leave nibble 1 open; there it is `spare`. -/
def code (spare : Nat) : Instruction → Nat
  | .clear => Layout.nnn 0x0 0x0E0
  | .ret => Layout.nnn 0x0 0x0EE
  | .jump a => Layout.nnn 0x1 a.toNat
  | .call a => Layout.nnn 0x2 a.toNat
  | .skipEqByte x b => Layout.xkk 0x3 x b.toNat
  | .skipNeByte x b => Layout.xkk 0x4 x b.toNat
  | .skipEq x y => Layout.xyn 0x5 x y spare
  | .setByte x b => Layout.xkk 0x6 x b.toNat
  | .addByte x b => Layout.xkk 0x7 x b.toNat
  | .copy x y => Layout.xyn 0x8 x y 0x0
  | .or x y => Layout.xyn 0x8 x y 0x1
  | .and x y => Layout.xyn 0x8 x y 0x2
  | .xor x y => Layout.xyn 0x8 x y 0x3
  | .add x y => Layout.xyn 0x8 x y 0x4
  | .sub x y => Layout.xyn 0x8 x y 0x5
  | .shiftRight x y => Layout.xyn 0x8 x y 0x6
  | .subFrom x y => Layout.xyn 0x8 x y 0x7
  | .shiftLeft x y => Layout.xyn 0x8 x y 0xE
  | .skipNe x y => Layout.xyn 0x9 x y spare
  | .setIndex a => Layout.nnn 0xA a.toNat
  | .jumpOffset a => Layout.nnn 0xB a.toNat
  | .random x m => Layout.xkk 0xC x m.toNat
  | .draw x y rows => Layout.xyn 0xD x y rows.toNat
  | .skipKey x => Layout.xkk 0xE x 0x9E
  | .skipNotKey x => Layout.xkk 0xE x 0xA1
  | .getDelay x => Layout.xkk 0xF x 0x07
  | .waitKey x => Layout.xkk 0xF x 0x0A
  | .setDelay x => Layout.xkk 0xF x 0x15
  | .setSound x => Layout.xkk 0xF x 0x18
  | .addIndex x => Layout.xkk 0xF x 0x1E
  | .glyph x => Layout.xkk 0xF x 0x29
  | .storeDigits x => Layout.xkk 0xF x 0x33
  | .storeRegisters x => Layout.xkk 0xF x 0x55
  | .loadRegisters x => Layout.xkk 0xF x 0x65

/-- The table has `w` for `i`. -/
def Encodes (i : Instruction) (w : UInt16) : Prop :=
  ∃ spare < 0x10, w.toNat = i.code spare

/-! ## The decoder follows the table -/

section Decode

variable {w : UInt16} {i : Instruction}

/-- Where no nibble is open, any `spare` will do. -/
theorem encodes_of_code (h : w.toNat = i.code 0) : i.Encodes w :=
  ⟨0, by decide, h⟩

theorem encodes_of_control (hgroup : Word.nibble 4 w = 0x0) (h : decodeControl? w = some i) :
    i.InRange ∧ i.Encodes w := by
  unfold decodeControl? at h
  split at h
  case h_3 => cases h
  all_goals
    rename_i hkey
    obtain rfl := Option.some.inj h
    exact ⟨trivial, encodes_of_code ((toNat_eq_nnn_iff (by decide)).mpr ⟨hgroup, hkey⟩)⟩

theorem encodes_of_arithmetic (hgroup : Word.nibble 4 w = 0x8)
    (h : decodeArithmetic? w = some i) : i.InRange ∧ i.Encodes w := by
  unfold decodeArithmetic? at h
  split at h
  case h_10 => cases h
  all_goals
    rename_i hkey
    obtain rfl := Option.some.inj h
    exact ⟨trivial,
      encodes_of_code ((toNat_eq_xyn_iff (by decide)).mpr ⟨hgroup, rfl, rfl, hkey⟩)⟩

theorem encodes_of_keypad (hgroup : Word.nibble 4 w = 0xE) (h : decodeKeypad? w = some i) :
    i.InRange ∧ i.Encodes w := by
  unfold decodeKeypad? at h
  split at h
  case h_3 => cases h
  all_goals
    rename_i hkey
    obtain rfl := Option.some.inj h
    exact ⟨trivial, encodes_of_code ((toNat_eq_xkk_iff (by decide)).mpr ⟨hgroup, rfl, hkey⟩)⟩

theorem encodes_of_transfer (hgroup : Word.nibble 4 w = 0xF) (h : decodeTransfer? w = some i) :
    i.InRange ∧ i.Encodes w := by
  unfold decodeTransfer? at h
  split at h
  case h_10 => cases h
  all_goals
    rename_i hkey
    obtain rfl := Option.some.inj h
    exact ⟨trivial, encodes_of_code ((toNat_eq_xkk_iff (by decide)).mpr ⟨hgroup, rfl, hkey⟩)⟩

/-- What is decoded has room in a word, and the table has that word for it. -/
theorem encodes_of_decode (h : decode? w = some i) : i.InRange ∧ i.Encodes w := by
  have hfour := Word.nibble_lt 4 w
  unfold decode? at h
  split at h
  -- Four groups are divided once more.
  case h_1 hgroup => exact encodes_of_control hgroup h
  case h_9 hgroup => exact encodes_of_arithmetic hgroup h
  case h_15 hgroup => exact encodes_of_keypad hgroup h
  case h_16 =>
    have hgroup : Word.nibble 4 w = 0xF := by grind
    exact encodes_of_transfer hgroup h
  all_goals
    rename_i hgroup
    obtain rfl := Option.some.inj h
  case h_2 | h_3 | h_11 | h_12 =>
    have haddress := toNat_fieldAddress w
    have hlt : (fieldAddress w).toNat < 0x1000 := haddress ▸ Word.nibbles_lt 1 3 w
    exact ⟨hlt, encodes_of_code ((toNat_eq_nnn_iff hlt).mpr ⟨hgroup, haddress.symm⟩)⟩
  case h_6 | h_10 =>
    have hlast := Word.nibble_lt 1 w
    exact ⟨trivial, _, hlast, (toNat_eq_xyn_iff hlast).mpr ⟨hgroup, rfl, rfl, rfl⟩⟩
  case h_14 =>
    have hrows := toNat_fieldRows w
    have hlt : (fieldRows w).toNat < 0x10 := hrows ▸ Word.nibble_lt 1 w
    exact ⟨hlt, encodes_of_code ((toNat_eq_xyn_iff hlt).mpr ⟨hgroup, rfl, rfl, hrows.symm⟩)⟩
  all_goals
    have hbyte := (toNat_fieldByte w).symm
    exact ⟨trivial,
      encodes_of_code ((toNat_eq_xkk_iff (UInt8.toNat_lt _)).mpr ⟨hgroup, rfl, hbyte⟩)⟩

/-- A word that the table has for an instruction is decoded to that instruction. -/
theorem decode_of_encodes (hrange : i.InRange) (h : i.Encodes w) : decode? w = some i := by
  obtain ⟨spare, hspare, hw⟩ := h
  cases i with
  | clear | ret =>
      obtain ⟨hgroup, hkey⟩ := (toNat_eq_nnn_iff (by decide)).mp hw
      simp only [decode?, hgroup, decodeControl?, hkey]
  | jump a | call a | setIndex a | jumpOffset a =>
      obtain ⟨hgroup, haddress⟩ := (toNat_eq_nnn_iff hrange).mp hw
      rw [← toNat_fieldAddress, UInt16.toNat_inj] at haddress
      simp only [decode?, hgroup, haddress]
  | skipEqByte x b | skipNeByte x b | setByte x b | addByte x b | random x b =>
      obtain ⟨hgroup, hx, hbyte⟩ := (toNat_eq_xkk_iff b.toNat_lt).mp hw
      rw [← toNat_fieldByte, UInt8.toNat_inj] at hbyte
      simp only [decode?, hgroup, hx, hbyte]
  | skipEq x y | skipNe x y =>
      obtain ⟨hgroup, hx, hy, -⟩ := (toNat_eq_xyn_iff hspare).mp hw
      simp only [decode?, hgroup, hx, hy]
  | draw x y rows =>
      obtain ⟨hgroup, hx, hy, hrows⟩ := (toNat_eq_xyn_iff hrange).mp hw
      rw [← toNat_fieldRows, UInt8.toNat_inj] at hrows
      simp only [decode?, hgroup, hx, hy, hrows]
  | copy x y | or x y | and x y | xor x y | add x y | sub x y | subFrom x y | shiftRight x y
  | shiftLeft x y =>
      obtain ⟨hgroup, hx, hy, hkey⟩ := (toNat_eq_xyn_iff (by decide)).mp hw
      simp only [decode?, hgroup, decodeArithmetic?, hkey, hx, hy]
  | skipKey x | skipNotKey x =>
      obtain ⟨hgroup, hx, hkey⟩ := (toNat_eq_xkk_iff (by decide)).mp hw
      simp only [decode?, hgroup, decodeKeypad?, hkey, hx]
  | getDelay x | waitKey x | setDelay x | setSound x | addIndex x | glyph x | storeDigits x
  | storeRegisters x | loadRegisters x =>
      obtain ⟨hgroup, hx, hkey⟩ := (toNat_eq_xkk_iff (by decide)).mp hw
      simp only [decode?, hgroup, decodeTransfer?, hkey, hx]

theorem ofWord_eq_ok_iff_encodes : ofWord w = .ok i ↔ i.InRange ∧ i.Encodes w := by
  rw [ofWord_eq_ok_iff]
  exact ⟨encodes_of_decode, fun h => decode_of_encodes h.1 h.2⟩

end Decode

/-! ## Words of one instruction -/

/-- Two different words that differ in nibble 1 alone, in one of the two groups that
leave it open. -/
def Twins (v w : UInt16) : Prop :=
  (Word.nibble 4 v = 0x5 ∧ Word.nibble 4 w = 0x5 ∨ Word.nibble 4 v = 0x9 ∧ Word.nibble 4 w = 0x9) ∧
    Word.nibble 3 v = Word.nibble 3 w ∧ Word.nibble 2 v = Word.nibble 2 w ∧
    Word.nibble 1 v ≠ Word.nibble 1 w

instance (v w : UInt16) : Decidable (Twins v w) :=
  inferInstanceAs (Decidable (_ ∧ _ ∧ _ ∧ _))

/-- Where the table leaves a nibble open. -/
theorem code_cases (i : Instruction) :
    (∃ group x y, (group = 0x5 ∨ group = 0x9) ∧
        ∀ spare, i.code spare = Layout.xyn group x y spare) ∨
      ∀ spare, i.code spare = i.code 0 := by
  cases i with
  | skipEq x y => exact Or.inl ⟨0x5, x, y, Or.inl rfl, fun _ => rfl⟩
  | skipNe x y => exact Or.inl ⟨0x9, x, y, Or.inr rfl, fun _ => rfl⟩
  | _ => exact Or.inr fun _ => rfl

/-- Words of one instruction are the same, or twins. -/
theorem twins_of_encodes {i : Instruction} {v w : UInt16} (hv : i.Encodes v) (hw : i.Encodes w)
    (hne : v ≠ w) : Twins v w := by
  obtain ⟨s, hs, hv⟩ := hv
  obtain ⟨t, ht, hw⟩ := hw
  rcases i.code_cases with ⟨group, x, y, hgroup, hcode⟩ | hfixed
  · rw [hcode] at hv hw
    obtain ⟨hv₄, hv₃, hv₂, hv₁⟩ := (toNat_eq_xyn_iff hs).mp hv
    obtain ⟨hw₄, hw₃, hw₂, hw₁⟩ := (toNat_eq_xyn_iff ht).mp hw
    refine ⟨?_, ?_, ?_, ?_⟩
    · rw [hv₄, hw₄]
      exact hgroup.imp (fun h => ⟨h, h⟩) fun h => ⟨h, h⟩
    · rw [fieldX_eq_iff] at hv₃ hw₃
      rw [Word.nibble_three, Word.nibble_three, hv₃, hw₃]
    · rw [fieldY_eq_iff] at hv₂ hw₂
      rw [Word.nibble_two, Word.nibble_two, hv₂, hw₂]
    · rintro hlast
      have hst : s = t := by rw [← hv₁, ← hw₁, hlast]
      exact hne (UInt16.toNat_inj.mp (by rw [hv, hw, hst]))
  · exact absurd (UInt16.toNat_inj.mp (by rw [hv, hw, hfixed s, hfixed t])) hne

theorem Twins.ne {v w : UInt16} (h : Twins v w) : v ≠ w := by
  rintro rfl
  exact h.2.2.2 rfl

/-- Twins are words of one instruction. -/
theorem Twins.decode {v w : UInt16} (h : Twins v w) :
    ∃ i, ofWord v = .ok i ∧ ofWord w = .ok i := by
  obtain ⟨hgroup, hthree, htwo, -⟩ := h
  have hx : fieldX v = fieldX w := by rw [fieldX, fieldX, hthree]
  have hy : fieldY v = fieldY w := by rw [fieldY, fieldY, htwo]
  simp only [ofWord_eq_ok_iff]
  rcases hgroup with ⟨hv, hw⟩ | ⟨hv, hw⟩
  · exact ⟨.skipEq (fieldX w) (fieldY w), by simp only [decode?, hv, hx, hy],
      by simp only [decode?, hw]⟩
  · exact ⟨.skipNe (fieldX w) (fieldY w), by simp only [decode?, hv, hx, hy],
      by simp only [decode?, hw]⟩

/-- The table has numbers of sixteen bits for what is in range. -/
theorem code_lt {i : Instruction} (h : i.InRange) : i.code 0 < 0x10000 := by
  cases i with
  | clear | ret => decide
  | jump a | call a | setIndex a | jumpOffset a =>
      simp only [InRange] at h
      simp only [code, Layout.nnn]
      omega
  | skipEqByte x b | skipNeByte x b | setByte x b | addByte x b | random x b =>
      have hx := x.isLt
      have hb := b.toNat_lt
      simp only [code, Layout.xkk]
      omega
  | draw x y rows =>
      simp only [InRange] at h
      simp only [code, Layout.xyn]
      omega
  | skipEq x y | skipNe x y | copy x y | or x y | and x y | xor x y | add x y | sub x y
  | subFrom x y | shiftRight x y | shiftLeft x y =>
      simp only [code, Layout.xyn]
      omega
  | _ =>
      simp only [code, Layout.xkk]
      omega

/-- What is in range has a word. -/
theorem exists_encodes {i : Instruction} (h : i.InRange) : ∃ w, i.Encodes w := by
  have hlt : i.code 0 < 0x10000 := code_lt h
  exact ⟨UInt16.ofNat (i.code 0), encodes_of_code (UInt16.toNat_ofNat_of_lt' hlt)⟩

/-- **The decoder accepts exactly its grammar.**  A word is decoded to an instruction
if and only if the operands of the instruction are in range and the table has this
word for it; a word that the table has for nothing is an error that carries the word.
So every instruction in range is the meaning of some word, and words with the same
meaning are the same, or twins. -/
theorem decoder_accepts_exactly_its_grammar :
    (∀ w i, ofWord w = .ok i ↔ InRange i ∧ Encodes i w) ∧
    (∀ w e, ofWord w = .error e ↔ (¬∃ i : Instruction, i.InRange ∧ i.Encodes w) ∧ e = ⟨w⟩) ∧
    (∀ i : Instruction, (∃ w, ofWord w = .ok i) ↔ i.InRange) ∧
    ∀ v w, (v ≠ w ∧ ∃ i, ofWord v = .ok i ∧ ofWord w = .ok i) ↔ Twins v w := by
  refine ⟨fun w i => ofWord_eq_ok_iff_encodes, ?_, ?_, ?_⟩
  · intro w e
    rw [ofWord_eq_error_iff, Option.eq_none_iff_forall_ne_some]
    simp only [ne_eq, ← ofWord_eq_ok_iff, ofWord_eq_ok_iff_encodes, not_exists]
  · intro i
    constructor
    · rintro ⟨w, hw⟩
      exact (ofWord_eq_ok_iff_encodes.mp hw).1
    · intro hrange
      obtain ⟨w, hw⟩ := exists_encodes hrange
      exact ⟨w, ofWord_eq_ok_iff_encodes.mpr ⟨hrange, hw⟩⟩
  · intro v w
    constructor
    · rintro ⟨hne, i, hv, hw⟩
      exact twins_of_encodes (ofWord_eq_ok_iff_encodes.mp hv).2
        (ofWord_eq_ok_iff_encodes.mp hw).2 hne
    · intro h
      exact ⟨h.ne, h.decode⟩

end Instruction

end Chip8
