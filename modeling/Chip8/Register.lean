import Chip8.Hex

/-!
# General-purpose registers

The sixteen registers are called `V0` to `VF`.  The last of them doubles as the
flag that additions, subtractions, shifts and draws write.
-/

set_option autoImplicit false

namespace Chip8

/-- The number of a general-purpose register. -/
abbrev Register := Fin 16

namespace Register

/-- The register whose number is the low nibble of `n`. -/
@[inline] def ofNat (n : Nat) : Register :=
  ⟨n % 16, Nat.mod_lt n (by decide)⟩

/-- The register that carries, borrows and collisions are reported in. -/
def flag : Register := ⟨15, by decide⟩

/-- The register that offset jumps add. -/
def offset : Register := ⟨0, by decide⟩

/-- The name of a register, such as `VA`. -/
def name (x : Register) : String :=
  "V" ++ Hex.text 1 x.val

end Register

end Chip8
