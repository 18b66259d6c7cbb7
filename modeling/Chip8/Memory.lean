import Chip8.Font
import Chip8.Hex
import Chip8.Word

/-!
# Memory

The address space has 4096 bytes.  The lowest 512 are reserved and hold the
glyphs at their upper end; a program is loaded above them.

Addresses and lengths are 64-bit numbers, and a range is checked by an addition
that saturates.  `fits_iff` says that this is as good as exact arithmetic: a
range is accepted if and only if it ends within memory.  Every access is
checked, and one that fails changes nothing.
-/

set_option autoImplicit false

namespace Chip8

/-- An access outside the address space. -/
structure AddressError where
  /-- The first address of the access that lies outside. -/
  address : UInt64
  deriving DecidableEq, Repr

/-- What is said about an access outside the address space. -/
def AddressError.message (e : AddressError) : String :=
  "address out of bounds: 0x" ++ Hex.text 3 e.address.toNat

/-- The bytes of the address space. -/
structure Memory where
  /-- The byte at each address. -/
  bytes : Vector UInt8 0x1000
  deriving DecidableEq

namespace Memory

/-! ## Layout -/

/-- The size of the address space. -/
abbrev size : Nat := 0x1000

/-- The address at which programs are loaded and started. -/
abbrev programStart : Nat := 0x200

/-- The size of the largest program. -/
abbrev programCapacity : Nat := size - programStart

/-- Memory before any program is loaded: the glyphs, and zeros. -/
def initial : Memory :=
  ⟨overlay (Vector.replicate 0x1000 0) Font.start Font.image⟩

instance : Inhabited Memory := ⟨initial⟩

/-! ## Ranges -/

/-- The sum of two numbers, or the largest 64-bit number where the sum is larger. -/
def saturatingAdd (a b : UInt64) : UInt64 :=
  if a + b < a then 0xFFFFFFFFFFFFFFFF else a + b

/-- Whether the `len` bytes from `start` on lie within memory. -/
def Fits (start len : UInt64) : Prop :=
  saturatingAdd start len ≤ 0x1000

instance (start len : UInt64) : Decidable (Fits start len) :=
  inferInstanceAs (Decidable (_ ≤ _))

/-- The saturating sum is the exact sum, cut off at the largest number. -/
theorem toNat_saturatingAdd (a b : UInt64) :
    (saturatingAdd a b).toNat = min (a.toNat + b.toNat) 0xFFFFFFFFFFFFFFFF := by
  have ha := a.toNat_lt
  have hb := b.toNat_lt
  unfold saturatingAdd
  split
  · rename_i h
    rw [UInt64.lt_iff_toNat_lt, UInt64.toNat_add] at h
    rw [show (0xFFFFFFFFFFFFFFFF : UInt64).toNat = 0xFFFFFFFFFFFFFFFF from rfl]
    omega
  · rename_i h
    rw [UInt64.lt_iff_toNat_lt, UInt64.toNat_add] at h
    rw [UInt64.toNat_add]
    omega

/-- A range fits if and only if it ends within memory, in exact arithmetic. -/
theorem fits_iff {start len : UInt64} : Fits start len ↔ start.toNat + len.toNat ≤ size := by
  unfold Fits
  rw [UInt64.le_iff_toNat_le, toNat_saturatingAdd,
    show (0x1000 : UInt64).toNat = size from rfl]
  simp only [size]
  omega

/-- The error of a range that does not fit: its first address outside memory,
or the end of memory if the range is empty and starts below. -/
def rangeError (start : UInt64) : AddressError :=
  ⟨max start 0x1000⟩

/-! ## Reading -/

/-- The byte at an address. -/
def byte (m : Memory) (a : UInt64) : Except AddressError UInt8 :=
  if h : a.toNat < 0x1000 then .ok m.bytes[a.toNat] else .error ⟨a⟩

/-- The word at an address and the one after it. -/
def word (m : Memory) (a : UInt64) : Except AddressError UInt16 :=
  if h : Fits a 2 then
    have : a.toNat + 2 ≤ 0x1000 := fits_iff.mp h
    .ok (Word.ofBytes m.bytes[a.toNat] m.bytes[a.toNat + 1])
  else
    .error (rangeError a)

/-- The `len` bytes from `start` on. -/
def read (m : Memory) (start len : UInt64) : Except AddressError (List UInt8) :=
  if h : Fits start len then
    .ok (stretch m.bytes start.toNat len.toNat (fits_iff.mp h))
  else
    .error (rangeError start)

/-! ## Writing -/

/-- Memory with `data` written from `start` on.  A list longer than memory is
refused at once, so that the length of any other is a 64-bit number. -/
def write (m : Memory) (start : UInt64) (data : List UInt8) : Except AddressError Memory :=
  if data.length ≤ size ∧ Fits start (UInt64.ofNat data.length) then
    .ok ⟨overlay m.bytes start.toNat data⟩
  else
    .error (rangeError start)

/-- A write succeeds if and only if it ends within memory. -/
theorem write_condition {start : UInt64} {data : List UInt8} :
    data.length ≤ size ∧ Fits start (UInt64.ofNat data.length) ↔
      start.toNat + data.length ≤ size := by
  rw [fits_iff, UInt64.toNat_ofNat']
  simp only [size]
  constructor
  · intro ⟨hlen, h⟩
    rw [Nat.mod_eq_of_lt (by omega)] at h
    exact h
  · intro h
    rw [Nat.mod_eq_of_lt (by omega)]
    omega

/-! ## Programs -/

/-- A program that does not fit above the reserved area. -/
structure ProgramTooLarge where
  /-- The size of the rejected program. -/
  size : Nat
  deriving DecidableEq, Repr

/-- What is said about a program that does not fit. -/
def ProgramTooLarge.message (e : ProgramTooLarge) : String :=
  "input program is too large (" ++ toString e.size ++ " bytes, at most "
    ++ toString programCapacity ++ " allowed)"

/-- Memory with a program loaded.  What an earlier, longer program left beyond
the end of the new one stays in place. -/
def load (m : Memory) (program : List UInt8) : Except ProgramTooLarge Memory :=
  if program.length > programCapacity then
    .error ⟨program.length⟩
  else
    .ok ⟨overlay m.bytes programStart program⟩

end Memory

end Chip8
