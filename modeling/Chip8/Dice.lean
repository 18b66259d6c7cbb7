/-!
# Random bytes

A source of bytes for the machine's random numbers.  Programs are promised no
more than that the byte is masked, so any source will do; this one mixes a
64-bit state by shifts and a multiplication.
-/

set_option autoImplicit false

namespace Chip8

/-- A source of random bytes. -/
structure Dice where
  /-- The mixed state. -/
  state : UInt64
  deriving DecidableEq, Repr

namespace Dice

/-- A source that starts from a seed. -/
def ofSeed (seed : UInt64) : Dice :=
  ⟨seed * 2 + 1⟩

/-- The next byte, and the source after it. -/
def roll (d : Dice) : UInt8 × Dice :=
  let a := d.state ^^^ (d.state >>> 12)
  let b := a ^^^ (a <<< 25)
  let c := b ^^^ (b >>> 27)
  (((c * 0x2545F4914F6CDD1D) >>> 56).toUInt8, ⟨c⟩)

end Dice

end Chip8
