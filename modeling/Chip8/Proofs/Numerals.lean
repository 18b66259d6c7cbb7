import Chip8.Hex
import Chip8.Word

/-!
# Reading numbers back

A number that is written in hexadecimal can be read back, whatever the width it was
filled up to: `read_padded`.  So different numbers are written differently, also
where one has more digits than the other.

`IsNumeral` says what it is to be written in this way, without saying how it is
done.
-/

set_option autoImplicit false

namespace Chip8.Hex

/-- The number that digits stand for, the most significant one first.  What is no
digit counts as a zero. -/
def read (cs : List Char) : Nat :=
  cs.foldl (fun n c => 16 * n + (value? c).elim 0 Fin.val) 0

/-- Digits, and upper-case letters for those from ten on. -/
def alphabet : List Char :=
  ['0', '1', '2', '3', '4', '5', '6', '7', '8', '9', 'A', 'B', 'C', 'D', 'E', 'F']

/-- The number `n` in upper-case hexadecimal.  There are at least `width` digits, and
if there are more then because the number needs them. -/
structure IsNumeral (width n : Nat) (cs : List Char) : Prop where
  upper : ∀ c ∈ cs, c ∈ alphabet
  read : read cs = n
  width_le : width ≤ cs.length
  shortest : width < cs.length → cs.head? ≠ some '0'

/-! ## Digits -/

theorem read_concat_digit (cs : List Char) {d : Nat} (hd : d < 16) :
    read (cs ++ [digit d]) = 16 * read cs + d := by
  have hdigit : value? (digit d) = some ⟨d, hd⟩ := value?_digit ⟨d, hd⟩
  simp only [read, List.foldl_append, List.foldl_cons, List.foldl_nil, hdigit, Option.elim_some]

theorem digit_mem_alphabet {d : Nat} (hd : d < 16) : digit d ∈ alphabet := by
  have hall : ∀ k : Fin 16, digit k.val ∈ alphabet := by decide
  exact hall ⟨d, hd⟩

theorem digit_ne_zero {d : Nat} (hd : d < 16) (hpos : 0 < d) : digit d ≠ '0' := by
  have hall : ∀ k : Fin 16, 0 < k.val → digit k.val ≠ '0' := by decide
  exact hall ⟨d, hd⟩ hpos

theorem read_digits (n : Nat) : read (digits n) = n := by
  induction n using digits.induct with
  | case1 n hsmall =>
      rw [digits, if_pos hsmall]
      have hone := read_concat_digit [] hsmall
      rwa [List.nil_append, show read [] = 0 from rfl, Nat.mul_zero, Nat.zero_add] at hone
  | case2 n hlarge ih =>
      rw [digits, if_neg hlarge, read_concat_digit _ (Nat.mod_lt n (by decide)), ih]
      exact Nat.div_add_mod n 16

theorem mem_alphabet_of_mem_digits {n : Nat} {c : Char} (h : c ∈ digits n) : c ∈ alphabet := by
  induction n using digits.induct with
  | case1 n hsmall =>
      rw [digits, if_pos hsmall, List.mem_singleton] at h
      exact h ▸ digit_mem_alphabet hsmall
  | case2 n hlarge ih =>
      rw [digits, if_neg hlarge, List.mem_append, List.mem_singleton] at h
      rcases h with hfront | hlast
      · exact ih hfront
      · exact hlast ▸ digit_mem_alphabet (Nat.mod_lt n (by decide))

/-- A number but zero does not begin with a zero. -/
theorem head?_digits_ne {n : Nat} (hpos : 0 < n) : (digits n).head? ≠ some '0' := by
  induction n using digits.induct with
  | case1 n hsmall =>
      rw [digits, if_pos hsmall, List.head?_cons, ne_eq, Option.some.injEq]
      exact digit_ne_zero hsmall hpos
  | case2 n hlarge ih =>
      obtain ⟨c, cs, hfront⟩ := List.exists_cons_of_ne_nil (digits_ne_nil (n / 16))
      have hhead := ih (by omega)
      rw [hfront] at hhead
      rw [digits, if_neg hlarge, hfront]
      exact hhead

/-- A number has no more digits than nibbles. -/
theorem length_digits_le {n k : Nat} (h : n < Word.span (k + 1)) : (digits n).length ≤ k + 1 := by
  induction k generalizing n with
  | zero =>
      have hsmall : n < 16 := h
      rw [digits, if_pos hsmall]
      exact Nat.le_refl 1
  | succ k ih =>
      rw [digits]
      split
      · exact Nat.succ_le_succ (Nat.zero_le _)
      · have hfront : n / 16 < Word.span (k + 1) := by
          rw [Word.span] at h
          omega
        rw [List.length_append, List.length_singleton]
        exact Nat.succ_le_succ (ih hfront)

/-! ## Padding -/

@[simp] theorem toList_text (width n : Nat) : (text width n).toList = padded width n :=
  String.toList_ofList

theorem read_replicate_append (k : Nat) (cs : List Char) :
    read (List.replicate k '0' ++ cs) = read cs := by
  induction k with
  | zero => rfl
  | succ k ih => exact ih

/-- A number is read back as it was written. -/
@[simp] theorem read_padded (width n : Nat) : read (padded width n) = n := by
  rw [padded, read_replicate_append, read_digits]

theorem mem_alphabet_of_mem_padded {width n : Nat} {c : Char} (h : c ∈ padded width n) :
    c ∈ alphabet := by
  rw [padded, List.mem_append, List.mem_replicate] at h
  rcases h with ⟨-, rfl⟩ | hdigit
  · decide
  · exact mem_alphabet_of_mem_digits hdigit

/-- A number that needs no more digits is as wide as was asked. -/
theorem length_padded {n k : Nat} (h : n < Word.span (k + 1)) :
    (padded (k + 1) n).length = k + 1 := by
  have hlen := length_digits_le h
  rw [padded, List.length_append, List.length_replicate]
  omega

theorem isNumeral_padded {width : Nat} (hwidth : 0 < width) (n : Nat) :
    IsNumeral width n (padded width n) where
  upper := fun _ => mem_alphabet_of_mem_padded
  read := read_padded width n
  width_le := le_length_padded width n
  shortest := by
    intro hlong
    have hdigits : width < (digits n).length := by
      rw [padded, List.length_append, List.length_replicate] at hlong
      omega
    have hpos : 0 < n := by
      rcases Nat.eq_zero_or_pos n with rfl | hpos
      · rw [show digits 0 = ['0'] from by rw [digits]; rfl] at hdigits
        exact absurd hdigits (by simp only [List.length_singleton]; omega)
      · exact hpos
    rw [padded, Nat.sub_eq_zero_of_le (Nat.le_of_lt hdigits)]
    exact head?_digits_ne hpos

end Chip8.Hex
