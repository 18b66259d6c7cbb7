/-!
# Hexadecimal text

Numbers are written in upper-case hexadecimal, filled up with zeros to a least
width; a number that needs more digits than that gets them.
-/

set_option autoImplicit false

namespace Chip8.Hex

/-- The digit that stands for `d`, for `d` below sixteen. -/
def digit (d : Nat) : Char :=
  if d < 10 then Char.ofNat (48 + d) else Char.ofNat (55 + d)

/-- The digits of `n`, most significant first and without leading zeros. -/
def digits (n : Nat) : List Char :=
  if n < 16 then [digit n] else digits (n / 16) ++ [digit (n % 16)]
termination_by n
decreasing_by omega

/-- The digits of `n`, with zeros in front up to `width` characters. -/
def padded (width n : Nat) : List Char :=
  List.replicate (width - (digits n).length) '0' ++ digits n

/-- `padded` as text. -/
def text (width n : Nat) : String :=
  String.ofList (padded width n)

/-- The value that a digit stands for; upper and lower case are both accepted. -/
def value? (c : Char) : Option (Fin 16) :=
  let n := c.toNat
  if h : 48 ≤ n ∧ n < 58 then some ⟨n - 48, by omega⟩
  else if h : 65 ≤ n ∧ n < 71 then some ⟨n - 55, by omega⟩
  else if h : 97 ≤ n ∧ n < 103 then some ⟨n - 87, by omega⟩
  else none

/-- Every digit reads back as its own value. -/
theorem value?_digit (d : Fin 16) : value? (digit d.val) = some d := by
  revert d
  decide

/-- No number is written without a digit. -/
theorem digits_ne_nil (n : Nat) : digits n ≠ [] := by
  rw [digits]
  split <;> simp

/-- Padding reaches the asked width. -/
theorem le_length_padded (width n : Nat) : width ≤ (padded width n).length := by
  simp only [padded, List.length_append, List.length_replicate]
  omega

end Chip8.Hex
