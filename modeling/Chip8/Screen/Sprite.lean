import Chip8.Screen

/-!
# Sprites

A sprite is a list of rows, each a byte whose most significant bit is leftmost.
Drawing it flips one cell per set bit, row by row from the top and from left to
right, and reports whether a lit pixel went dark on the way.

A sprite at a position comes down to the list of cells of its set bits
(`Sprite.cells`), in which a cell can occur more than once when the sprite is
taller than the screen.  Drawing is `Screen.toggleAll` on that list, and
`lit_toggleAll` says what it leaves: a pixel is flipped if and only if its cell
occurs an odd number of times.
-/

set_option autoImplicit false

namespace Chip8

namespace Sprite

/-- Whether column `i` of a row of eight pixels is set. -/
@[inline] def isSet (row : UInt8) (i : Nat) : Bool :=
  row.toNat.testBit (7 - i)

/-- The cells of the set bits of one row, drawn at `x` and `y`. -/
def rowCells (row : UInt8) (x y : UInt64) : List Cell :=
  ((List.range 8).filter (isSet row)).map fun i => Cell.wrap (x + UInt64.ofNat i) y

/-- The cells of the set bits of a sprite, drawn with its upper left corner at
`x` and `y`. -/
def cells : List UInt8 → UInt64 → UInt64 → List Cell
  | [], _, _ => []
  | row :: rows, x, y => rowCells row x y ++ cells rows x (y + 1)

end Sprite

namespace Screen

/-- Flips each cell of a list in turn, and says whether one of them was lit at
its turn. -/
def toggleAll (s : Screen) (cells : List Cell) : Screen × Bool :=
  cells.foldl (fun (t, collided) c => let hit := collided || t.lit c; (t.toggle c, hit)) (s, false)

/-- Draws a sprite, and says whether a lit pixel went dark. -/
def draw (s : Screen) (sprite : List UInt8) (x y : UInt64) : Screen × Bool :=
  s.toggleAll (Sprite.cells sprite x y)

/-! ## Flipping a list of cells -/

@[simp] theorem toggleAll_nil (s : Screen) : s.toggleAll [] = (s, false) := rfl

/-- An earlier collision is kept, and has no other effect. -/
private theorem foldl_collided (cs : List Cell) (s : Screen) (b : Bool) :
    cs.foldl (fun (t, collided) c => let hit := collided || t.lit c; (t.toggle c, hit)) (s, b) =
      ((s.toggleAll cs).1, b || (s.toggleAll cs).2) := by
  induction cs generalizing s b with
  | nil => simp
  | cons c cs ih =>
      simp only [toggleAll, List.foldl_cons]
      rw [ih, ih]
      simp only [Bool.false_or, Bool.or_assoc]

/-- The first cell is flipped, then the others. -/
theorem toggleAll_cons (s : Screen) (c : Cell) (cs : List Cell) :
    s.toggleAll (c :: cs) =
      (((s.toggle c).toggleAll cs).1, s.lit c || ((s.toggle c).toggleAll cs).2) := by
  rw [toggleAll, List.foldl_cons, foldl_collided]
  simp only [Bool.false_or]

/-- A pixel is flipped if and only if its cell occurs an odd number of times. -/
theorem lit_toggleAll (s : Screen) (cs : List Cell) (d : Cell) :
    (s.toggleAll cs).1.lit d = (s.lit d ^^ decide (cs.count d % 2 = 1)) := by
  induction cs generalizing s with
  | nil => simp
  | cons c cs ih =>
      rw [toggleAll_cons, ih, lit_toggle, List.count_cons]
      by_cases h : c = d
      · subst h
        rcases Nat.mod_two_eq_zero_or_one (cs.count c) with hc | hc <;>
          simp [hc, Nat.add_mod]
      · simp [h]

/-- The screen is marked as changed if and only if it was, or a cell was flipped. -/
theorem dirty_toggleAll (s : Screen) (cs : List Cell) :
    (s.toggleAll cs).1.dirty = (s.dirty || !cs.isEmpty) := by
  cases cs with
  | nil => simp
  | cons c cs =>
      have h : ∀ (cs : List Cell) (t : Screen), t.dirty = true →
          (t.toggleAll cs).1.dirty = true := by
        intro cs
        induction cs with
        | nil => intro t ht; simpa using ht
        | cons c cs ih => intro t _; rw [toggleAll_cons]; exact ih _ rfl
      rw [toggleAll_cons]
      simpa using h cs (s.toggle c) rfl

end Screen

end Chip8
