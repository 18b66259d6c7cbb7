import Chip8.Overlay

/-!
# Built-in glyphs

Each hexadecimal digit has a glyph of five rows, four pixels wide.  The sixteen
glyphs lie one after the other and end right below the address at which
programs start.
-/

set_option autoImplicit false

namespace Chip8.Font

/-- The number of rows of a glyph. -/
abbrev height : Nat := 5

/-- The address below which the glyphs end. -/
abbrev limit : Nat := 0x200

/-- The address of the first glyph. -/
abbrev start : Nat := limit - height * 16

/-- The rows of the glyph of each digit. -/
def glyphs : Vector (Vector UInt8 height) 16 := #v[
  #v[0xF0, 0x90, 0x90, 0x90, 0xF0],
  #v[0x20, 0x60, 0x20, 0x20, 0x70],
  #v[0xF0, 0x10, 0xF0, 0x80, 0xF0],
  #v[0xF0, 0x10, 0xF0, 0x10, 0xF0],
  #v[0x90, 0x90, 0xF0, 0x10, 0x10],
  #v[0xF0, 0x80, 0xF0, 0x10, 0xF0],
  #v[0xF0, 0x80, 0xF0, 0x90, 0xF0],
  #v[0xF0, 0x10, 0x20, 0x40, 0x40],
  #v[0xF0, 0x90, 0xF0, 0x90, 0xF0],
  #v[0xF0, 0x90, 0xF0, 0x10, 0xF0],
  #v[0xF0, 0x90, 0xF0, 0x90, 0x90],
  #v[0xE0, 0x90, 0xE0, 0x90, 0xE0],
  #v[0xF0, 0x80, 0x80, 0x80, 0xF0],
  #v[0xE0, 0x90, 0x90, 0x90, 0xE0],
  #v[0xF0, 0x80, 0xF0, 0x80, 0xF0],
  #v[0xF0, 0x80, 0xF0, 0x80, 0x80]]

/-- The rows of one glyph, top row first. -/
def glyph (d : Fin 16) : List UInt8 :=
  glyphs[d].toList

/-- All glyphs in the order in which they lie in memory. -/
def image : List UInt8 :=
  (List.finRange 16).flatMap glyph

/-- The address of the glyph of the low nibble of `b`. -/
def address (b : UInt8) : UInt16 :=
  UInt16.ofNat (limit - height * (16 - b.toNat % 16))

/-- The glyphs fill the space that is reserved for them. -/
theorem length_image : image.length = height * 16 := by decide

/-- A glyph has its full height. -/
@[simp] theorem length_glyph (d : Fin 16) : (glyph d).length = height := by
  simp [glyph]

/-- The address of a glyph counts up from the first glyph. -/
theorem toNat_address (b : UInt8) : (address b).toNat = start + height * (b.toNat % 16) := by
  simp only [address, UInt16.toNat_ofNat', start, limit, height]
  omega

end Chip8.Font
