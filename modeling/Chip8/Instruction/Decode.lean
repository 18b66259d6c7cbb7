import Chip8.Instruction
import Chip8.Word

/-!
# Decoding words

The leading nibble of a word selects a group.  Most groups hold one kind of
instruction and use the rest of the word for operands; the groups `0`, `8`, `E`
and `F` select again by the address field, the last nibble or the last byte.
The groups `5` and `9` leave nibble 1 free.
-/

set_option autoImplicit false

namespace Chip8

/-- A word that stands for no instruction. -/
structure InvalidWord where
  /-- The rejected word. -/
  word : UInt16
  deriving DecidableEq, Repr

/-- What is said about a rejected word. -/
def InvalidWord.message (e : InvalidWord) : String :=
  "unrecognized opcode: " ++ Hex.text 4 e.word.toNat

namespace Instruction

/-! ## Operand fields -/

/-- The register in nibble 3. -/
@[inline] def fieldX (w : UInt16) : Register :=
  Register.ofNat (Word.nibble 3 w)

/-- The register in nibble 2. -/
@[inline] def fieldY (w : UInt16) : Register :=
  Register.ofNat (Word.nibble 2 w)

/-- The row count in nibble 1. -/
@[inline] def fieldRows (w : UInt16) : UInt8 :=
  UInt8.ofNat (Word.nibble 1 w)

/-- The byte in nibbles 1 and 2. -/
@[inline] def fieldByte (w : UInt16) : UInt8 :=
  UInt8.ofNat (Word.nibbles 1 2 w)

/-- The address in nibbles 1 to 3. -/
@[inline] def fieldAddress (w : UInt16) : UInt16 :=
  UInt16.ofNat (Word.nibbles 1 3 w)

/-! ## The decoder -/

/-- Group `0`: two words are instructions, all others belong to no instruction. -/
def decodeControl? (w : UInt16) : Option Instruction :=
  match Word.nibbles 1 3 w with
  | 0x0E0 => some .clear
  | 0x0EE => some .ret
  | _ => none

/-- Group `8`: arithmetic on two registers, selected by the last nibble. -/
def decodeArithmetic? (w : UInt16) : Option Instruction :=
  let x := fieldX w
  let y := fieldY w
  match Word.nibble 1 w with
  | 0x0 => some (.copy x y)
  | 0x1 => some (.or x y)
  | 0x2 => some (.and x y)
  | 0x3 => some (.xor x y)
  | 0x4 => some (.add x y)
  | 0x5 => some (.sub x y)
  | 0x6 => some (.shiftRight x y)
  | 0x7 => some (.subFrom x y)
  | 0xE => some (.shiftLeft x y)
  | _ => none

/-- Group `E`: tests of the keypad, selected by the last byte. -/
def decodeKeypad? (w : UInt16) : Option Instruction :=
  match Word.nibbles 1 2 w with
  | 0x9E => some (.skipKey (fieldX w))
  | 0xA1 => some (.skipNotKey (fieldX w))
  | _ => none

/-- Group `F`: timers, keys, `I` and block transfers, selected by the last byte. -/
def decodeTransfer? (w : UInt16) : Option Instruction :=
  let x := fieldX w
  match Word.nibbles 1 2 w with
  | 0x07 => some (.getDelay x)
  | 0x0A => some (.waitKey x)
  | 0x15 => some (.setDelay x)
  | 0x18 => some (.setSound x)
  | 0x1E => some (.addIndex x)
  | 0x29 => some (.glyph x)
  | 0x33 => some (.storeDigits x)
  | 0x55 => some (.storeRegisters x)
  | 0x65 => some (.loadRegisters x)
  | _ => none

/-- The instruction that a word stands for, if it stands for one. -/
def decode? (w : UInt16) : Option Instruction :=
  match Word.nibble 4 w with
  | 0x0 => decodeControl? w
  | 0x1 => some (.jump (fieldAddress w))
  | 0x2 => some (.call (fieldAddress w))
  | 0x3 => some (.skipEqByte (fieldX w) (fieldByte w))
  | 0x4 => some (.skipNeByte (fieldX w) (fieldByte w))
  | 0x5 => some (.skipEq (fieldX w) (fieldY w))
  | 0x6 => some (.setByte (fieldX w) (fieldByte w))
  | 0x7 => some (.addByte (fieldX w) (fieldByte w))
  | 0x8 => decodeArithmetic? w
  | 0x9 => some (.skipNe (fieldX w) (fieldY w))
  | 0xA => some (.setIndex (fieldAddress w))
  | 0xB => some (.jumpOffset (fieldAddress w))
  | 0xC => some (.random (fieldX w) (fieldByte w))
  | 0xD => some (.draw (fieldX w) (fieldY w) (fieldRows w))
  | 0xE => decodeKeypad? w
  | _ => decodeTransfer? w

/-- The instruction that a word stands for, or the word itself as the error. -/
def ofWord (w : UInt16) : Except InvalidWord Instruction :=
  match decode? w with
  | some i => .ok i
  | none => .error ⟨w⟩

/-- Decoding succeeds with what `decode?` finds. -/
theorem ofWord_eq_ok_iff {w : UInt16} {i : Instruction} :
    ofWord w = .ok i ↔ decode? w = some i := by
  unfold ofWord
  cases decode? w <;> simp

/-- Decoding fails exactly where `decode?` finds nothing, and names the word. -/
theorem ofWord_eq_error_iff {w : UInt16} {e : InvalidWord} :
    ofWord w = .error e ↔ decode? w = none ∧ e = ⟨w⟩ := by
  unfold ofWord
  cases decode? w <;> simp [eq_comm]

end Instruction

end Chip8
