/-!
# Stretches of a vector

Memory and the register file are both vectors of bytes, and both are written a
list at a time: a program, a block of registers, the glyphs.  This file has the
one operation that does so, `overlay`, the one that reads a list back,
`stretch`, and the lemma that says what each position holds afterwards.
-/

set_option autoImplicit false

namespace Chip8

variable {α : Type} {n : Nat}

/-- `v` with `xs` written over it from position `start` on.  What would fall
past the end of the vector is dropped. -/
def overlay (v : Vector α n) (start : Nat) : List α → Vector α n
  | [] => v
  | x :: xs => overlay (v.setIfInBounds start x) (start + 1) xs

/-- The `len` values from position `start` on. -/
def stretch (v : Vector α n) (start len : Nat) (h : start + len ≤ n) : List α :=
  List.ofFn fun i : Fin len => v[start + i.val]

/-- A position holds the value written over it, or else what it held before. -/
theorem getElem_overlay (v : Vector α n) (start : Nat) (xs : List α) (i : Nat) (h : i < n) :
    (overlay v start xs)[i] =
      if start ≤ i then xs[i - start]?.getD v[i] else v[i] := by
  induction xs generalizing v start with
  | nil => simp [overlay]
  | cons x xs ih =>
      rw [overlay, ih, Vector.getElem_setIfInBounds h]
      by_cases heq : start = i
      · subst heq
        simp [show ¬ start + 1 ≤ start by omega]
      · by_cases hlt : start ≤ i
        · -- Past the first position the rest of the list is written one further on.
          obtain ⟨k, rfl⟩ : ∃ k, i = start + 1 + k := ⟨i - (start + 1), by omega⟩
          have hk : start + 1 + k - start = k + 1 := by omega
          have hk' : start + 1 + k - (start + 1) = k := by omega
          simp [heq, hlt, hk, hk']
        · simp [heq, hlt, show ¬ start + 1 ≤ i by omega]

/-- Positions outside the written range keep their value. -/
theorem getElem_overlay_of_outside {v : Vector α n} {start : Nat} {xs : List α} {i : Nat}
    (h : i < n) (hi : i < start ∨ start + xs.length ≤ i) :
    (overlay v start xs)[i] = v[i] := by
  rw [getElem_overlay]
  split
  · rw [List.getElem?_eq_none (by omega), Option.getD_none]
  · rfl

/-- Positions inside the written range hold the written values. -/
theorem getElem_overlay_of_inside {v : Vector α n} {start : Nat} {xs : List α} {k : Nat}
    (hk : k < xs.length) (h : start + k < n) :
    (overlay v start xs)[start + k] = xs[k] := by
  rw [getElem_overlay, if_pos (by omega), Nat.add_sub_cancel_left,
    List.getElem?_eq_getElem hk, Option.getD_some]

@[simp] theorem length_stretch (v : Vector α n) (start len : Nat) (h : start + len ≤ n) :
    (stretch v start len h).length = len := by
  simp [stretch]

theorem getElem_stretch (v : Vector α n) (start len : Nat) (h : start + len ≤ n)
    (k : Nat) (hk : k < (stretch v start len h).length) (hv : start + k < n) :
    (stretch v start len h)[k] = v[start + k] := by
  simp [stretch]

end Chip8
