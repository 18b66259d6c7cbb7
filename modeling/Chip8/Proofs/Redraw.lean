import Chip8.Proofs.Hits

/-!
# Drawing in another order, and once more

Programs take back what they have drawn by drawing it again, and processors that
share a screen draw on it in whichever order.  Neither makes a difference to the
picture: what is left of a list of drawings are the cells that all of them flip
together, and of these it only counts how often each one occurs
(`drawAll_eq_toggleAll`).  Whether a drawing collides does depend on the order, so
nothing is said about that for more than one sprite.

A sprite that is drawn twice in a row collides at the latest when the second
drawing meets what the first one has lit (`collided_again`).
-/

set_option autoImplicit false

namespace Chip8

/-- A sprite, and where it is drawn. -/
structure Drawing where
  sprite : List UInt8
  x : UInt64
  y : UInt64

/-- The cells that a drawing flips. -/
def Drawing.cells (d : Drawing) : List Cell :=
  Sprite.cells d.sprite d.x d.y

namespace Screen

/-! ## Flipping cells -/

/-- Screens with the same lit cells and the same mark are the same. -/
theorem eq_of_lit {s t : Screen} (hlit : ∀ c, s.lit c = t.lit c) (hdirty : s.dirty = t.dirty) :
    s = t := by
  obtain ⟨pixels, dirty⟩ := s
  obtain ⟨pixels', dirty'⟩ := t
  exact congrArg₂ mk (pixels_eq_of_lit hlit) hdirty

theorem toggleAll_append (s : Screen) (cs ds : List Cell) :
    (s.toggleAll (cs ++ ds)).1 = ((s.toggleAll cs).1.toggleAll ds).1 := by
  induction cs generalizing s with
  | nil => rfl
  | cons c cs ih => rw [List.cons_append, toggleAll_cons, toggleAll_cons, ih]

/-- The order in which cells are flipped makes no difference. -/
theorem toggleAll_perm (s : Screen) {cs ds : List Cell} (h : cs.Perm ds) :
    (s.toggleAll cs).1 = (s.toggleAll ds).1 := by
  refine eq_of_lit (fun c => ?_) ?_
  · rw [lit_toggleAll, lit_toggleAll, h.count_eq]
  · rw [dirty_toggleAll, dirty_toggleAll, h.isEmpty_eq]

/-- Cells that are flipped once more are as they were. -/
theorem lit_toggleAll_toggleAll (s : Screen) {cs ds : List Cell} (h : cs.Perm ds) (c : Cell) :
    ((s.toggleAll cs).1.toggleAll ds).1.lit c = s.lit c := by
  have heven : (ds.count c + ds.count c) % 2 ≠ 1 := by omega
  rw [← toggleAll_append, lit_toggleAll, List.count_append, h.count_eq, decide_eq_false heven,
    Bool.xor_false]

/-! ## Lists of drawings -/

/-- The screen after drawings, one after the other. -/
def drawAll (s : Screen) (ds : List Drawing) : Screen :=
  ds.foldl (fun t d => (t.draw d.sprite d.x d.y).1) s

/-- Drawings flip the cells of all of them. -/
theorem drawAll_eq_toggleAll (s : Screen) (ds : List Drawing) :
    s.drawAll ds = (s.toggleAll (ds.flatMap Drawing.cells)).1 := by
  induction ds generalizing s with
  | nil => rfl
  | cons d ds ih =>
      rw [List.flatMap_cons, toggleAll_append]
      exact ih _

/-! ## One sprite, twice -/

/-- Cells that are flipped twice over collide, unless there are none: the first
time if one of them was lit or occurs twice, else the second time. -/
theorem collided_again (s : Screen) (cs : List Cell) :
    (s.toggleAll cs).2 = true ∨ ((s.toggleAll cs).1.toggleAll cs).2 = true ↔ cs ≠ [] := by
  rw [collided_toggleAll, collided_toggleAll]
  constructor
  · intro h
    obtain ⟨c, hc⟩ : ∃ c, 0 < cs.count c := by
      rcases h with ⟨c, hc⟩ | ⟨c, hc⟩ <;> exact ⟨c, by omega⟩
    exact List.ne_nil_of_mem (List.count_pos_iff.mp hc)
  · intro hne
    obtain ⟨c, hmem⟩ := List.exists_mem_of_ne_nil cs hne
    have hcount : 1 ≤ cs.count c := List.count_pos_iff.mpr hmem
    by_cases htwice : 2 ≤ cs.count c
    · exact Or.inl ⟨c, Or.inr htwice⟩
    · cases hlit : s.lit c with
      | true => exact Or.inl ⟨c, Or.inl ⟨hcount, hlit⟩⟩
      | false =>
          -- It is flipped once, so it is lit the second time.
          have hodd : cs.count c % 2 = 1 := by omega
          refine Or.inr ⟨c, Or.inl ⟨hcount, ?_⟩⟩
          rw [lit_toggleAll, hlit, decide_eq_true hodd, Bool.false_xor]

/-- **Drawings commute and cancel.**  In whichever order they are drawn, the same
drawings leave the same pixels and the same mark, and drawn once more in whichever
order they leave every pixel as it was.

Of two drawings of a sprite in a row, one collides if and only if a bit of the
sprite is set.  So the second one does if the first one does not, whatever the
height of the sprite: a cell that was hit twice would have made the first one
collide. -/
theorem drawings_commute_and_cancel (s : Screen) :
    (∀ ds es : List Drawing, ds.Perm es →
      (s.drawAll ds).pixels = (s.drawAll es).pixels ∧
      (s.drawAll ds).dirty = (s.drawAll es).dirty ∧
      ((s.drawAll ds).drawAll es).pixels = s.pixels) ∧
    (∀ (sprite : List UInt8) (x y : UInt64),
      ((s.draw sprite x y).2 = true ∨ ((s.draw sprite x y).1.draw sprite x y).2 = true ↔
        ∃ j i, j < sprite.length ∧ i < 8 ∧ Sprite.bit sprite j i = true) ∧
      ((∃ j i, j < sprite.length ∧ i < 8 ∧ Sprite.bit sprite j i = true) →
        (s.draw sprite x y).2 = false → ((s.draw sprite x y).1.draw sprite x y).2 = true)) := by
  constructor
  · intro ds es hperm
    have hcells : (ds.flatMap Drawing.cells).Perm (es.flatMap Drawing.cells) :=
      hperm.flatMap_right Drawing.cells
    have hsame : s.drawAll ds = s.drawAll es := by
      rw [drawAll_eq_toggleAll, drawAll_eq_toggleAll, toggleAll_perm s hcells]
    refine ⟨congrArg pixels hsame, congrArg dirty hsame, pixels_eq_of_lit fun c => ?_⟩
    rw [drawAll_eq_toggleAll, drawAll_eq_toggleAll, lit_toggleAll_toggleAll s hcells]
  · intro sprite x y
    have hone : (s.draw sprite x y).2 = true ∨ ((s.draw sprite x y).1.draw sprite x y).2 = true ↔
        ∃ j i, j < sprite.length ∧ i < 8 ∧ Sprite.bit sprite j i = true :=
      (collided_again s _).trans (Sprite.cells_ne_nil_iff sprite x y)
    refine ⟨hone, fun hset hfirst => ?_⟩
    exact (hone.mpr hset).resolve_left (Bool.not_eq_true _ ▸ hfirst)

/-- A sprite that overlaps itself, and one that overlaps it, across both edges of
the screen. -/
def tangle : List Drawing :=
  [⟨pillar, 63, 31⟩, ⟨[0xF0, 0x90, 0xF0], 62, 31⟩]

/-- `drawings_commute_and_cancel` for drawings that overlap, and for a sprite that
collides only when it is drawn again. -/
theorem drawings_commute_and_cancel_tangle :
    (blank.drawAll tangle).pixels = (blank.drawAll tangle.reverse).pixels ∧
      ((blank.drawAll tangle).drawAll tangle.reverse).pixels = blank.pixels ∧
      (blank.draw [0x80] 63 31).2 = false ∧
      ((blank.draw [0x80] 63 31).1.draw [0x80] 63 31).2 = true := by
  obtain ⟨hperm, hagain⟩ := drawings_commute_and_cancel blank
  obtain ⟨hpixels, -, hback⟩ := hperm tangle tangle.reverse tangle.reverse_perm.symm
  have hfirst : (blank.draw [0x80] 63 31).2 = false := by decide +kernel
  exact ⟨hpixels, hback, hfirst,
    (hagain [0x80] 63 31).2 ⟨0, 0, by decide, by decide, by decide +kernel⟩ hfirst⟩

end Screen

end Chip8
