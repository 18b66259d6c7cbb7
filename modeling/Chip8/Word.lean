/-!
# Sixteen-bit words

An instruction word is read as four nibbles, numbered from 1 (the least
significant) to 4 (the most significant), which is how `Dxyn` is written down:
`n` is nibble 1 and `D` is nibble 4.  This file cuts ranges of nibbles out of a
word and puts a word together from its two bytes.

The cuts are stated as quotients and remainders, so that linear arithmetic can
reason about every field of a word at once.
-/

set_option autoImplicit false

namespace Chip8.Word

/-! ## Fields of a word -/

/-- The number of values that `n` nibbles can have. -/
def span : Nat → Nat
  | 0 => 1
  | n + 1 => 16 * span n

/-- Nibbles `first` to `last` of `w`, moved down to start at bit 0. -/
@[inline] def nibbles (first last : Nat) (w : UInt16) : Nat :=
  w.toNat / span (first - 1) % span (last + 1 - first)

/-- Nibble `n` of `w`. -/
@[inline] def nibble (n : Nat) (w : UInt16) : Nat :=
  nibbles n n w

/-- Even no nibble at all has a value. -/
theorem span_pos (n : Nat) : 0 < span n := by
  induction n with
  | zero => decide
  | succ n ih => simp only [span]; omega

/-- A range of nibbles has as many values as its width allows. -/
theorem nibbles_lt (first last : Nat) (w : UInt16) :
    nibbles first last w < span (last + 1 - first) :=
  Nat.mod_lt _ (span_pos _)

/-- A single nibble is a hexadecimal digit. -/
theorem nibble_lt (n : Nat) (w : UInt16) : nibble n w < 16 := by
  have h : n + 1 - n = 1 := by omega
  have := nibbles_lt n n w
  rwa [h] at this

theorem nibble_one (w : UInt16) : nibble 1 w = w.toNat % 16 := by
  simp [nibble, nibbles, span]

theorem nibble_two (w : UInt16) : nibble 2 w = w.toNat / 16 % 16 := by
  simp [nibble, nibbles, span]

theorem nibble_three (w : UInt16) : nibble 3 w = w.toNat / 256 % 16 := by
  simp [nibble, nibbles, span]

theorem nibble_four (w : UInt16) : nibble 4 w = w.toNat / 4096 := by
  have := w.toNat_lt
  simp only [nibble, nibbles, span]
  omega

theorem nibbles_one_two (w : UInt16) : nibbles 1 2 w = w.toNat % 256 := by
  simp [nibbles, span]

theorem nibbles_one_three (w : UInt16) : nibbles 1 3 w = w.toNat % 4096 := by
  simp [nibbles, span]

/-! ## Bytes of a word -/

/-- The word whose high byte comes first, the order in which words lie in memory. -/
@[inline] def ofBytes (high low : UInt8) : UInt16 :=
  UInt16.ofNat (256 * high.toNat + low.toNat)

/-- The value of a word put together from two bytes. -/
@[simp] theorem toNat_ofBytes (high low : UInt8) :
    (ofBytes high low).toNat = 256 * high.toNat + low.toNat := by
  have := high.toNat_lt
  have := low.toNat_lt
  simp only [ofBytes, UInt16.toNat_ofNat']
  omega

end Chip8.Word
