import Chip8.Instruction

/-!
# Mnemonics

The assembly text of an instruction.  Addresses have at least three hexadecimal
digits, bytes two and row counts one; operands that need more digits get them,
so the text names the operands in full.
-/

set_option autoImplicit false

namespace Chip8.Instruction

/-- An operator and its operands, separated by commas. -/
def operation (name : String) (operands : List String) : String :=
  name ++ " " ++ String.intercalate ", " operands

/-- An address operand. -/
def addressText (a : UInt16) : String := Hex.text 3 a.toNat

/-- A byte operand. -/
def byteText (b : UInt8) : String := Hex.text 2 b.toNat

/-- A row count. -/
def rowsText (n : UInt8) : String := Hex.text 1 n.toNat

/-- The assembly text of an instruction. -/
def mnemonic : Instruction → String
  | .clear => "CLS"
  | .ret => "RET"
  | .jump a => operation "JP" [addressText a]
  | .call a => operation "CALL" [addressText a]
  | .skipEqByte x b => operation "SE" [x.name, byteText b]
  | .skipNeByte x b => operation "SNE" [x.name, byteText b]
  | .skipEq x y => operation "SE" [x.name, y.name]
  | .skipNe x y => operation "SNE" [x.name, y.name]
  | .setByte x b => operation "LD" [x.name, byteText b]
  | .addByte x b => operation "ADD" [x.name, byteText b]
  | .copy x y => operation "LD" [x.name, y.name]
  | .or x y => operation "OR" [x.name, y.name]
  | .and x y => operation "AND" [x.name, y.name]
  | .xor x y => operation "XOR" [x.name, y.name]
  | .add x y => operation "ADD" [x.name, y.name]
  | .sub x y => operation "SUB" [x.name, y.name]
  | .subFrom x y => operation "SUBN" [x.name, y.name]
  | .shiftRight x y => operation "SHR" [x.name, y.name]
  | .shiftLeft x y => operation "SHL" [x.name, y.name]
  | .setIndex a => operation "LD" ["I", addressText a]
  | .jumpOffset a => operation "JP" ["V0", addressText a]
  | .random x m => operation "RND" [x.name, byteText m]
  | .draw x y n => operation "DRW" [x.name, y.name, rowsText n]
  | .skipKey x => operation "SKP" [x.name]
  | .skipNotKey x => operation "SKNP" [x.name]
  | .getDelay x => operation "LD" [x.name, "DT"]
  | .waitKey x => operation "LD" [x.name, "K"]
  | .setDelay x => operation "LD" ["DT", x.name]
  | .setSound x => operation "LD" ["ST", x.name]
  | .addIndex x => operation "ADD" ["I", x.name]
  | .glyph x => operation "LD" ["F", x.name]
  | .storeDigits x => operation "LD" ["B", x.name]
  | .storeRegisters x => operation "LD" ["[I]", x.name]
  | .loadRegisters x => operation "LD" [x.name, "[I]"]

end Chip8.Instruction
