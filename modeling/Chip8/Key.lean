import Chip8.Hex

/-!
# Keys

The keypad has sixteen keys, labelled with the hexadecimal digits.
-/

set_option autoImplicit false

namespace Chip8

/-- A key of the keypad, named by its digit. -/
abbrev Key := Fin 16

namespace Key

/-- The key named by the low nibble of a byte. -/
def ofByte (b : UInt8) : Key :=
  ⟨b.toNat % 16, Nat.mod_lt _ (by decide)⟩

/-- The key labelled with a hexadecimal digit. -/
def ofDigit? (c : Char) : Option Key :=
  Hex.value? c

/-- The byte that stands for a key in a register. -/
def code (k : Key) : UInt8 :=
  UInt8.ofNat k.val

end Key

end Chip8
