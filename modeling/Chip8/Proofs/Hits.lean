import Chip8.Proofs.Faults
import Mathlib.Algebra.BigOperators.Group.Finset.Piecewise
import Mathlib.Algebra.BigOperators.Group.Finset.Sigma

/-!
# What a sprite leaves on the screen

A sprite is drawn bit by bit, and each set bit flips the cell that it hits.  The
coordinates of a bit are sums that wrap around twice, at `2 ^ 64` and at the edge
of the screen; a sprite that is taller than the screen hits cells again, and the
collision tells of any pixel that was lit at its turn, be it that an earlier row
of the same sprite had lit it.

None of this is left when only the hits of a cell are counted (`hits`), with the
coordinates in exact arithmetic.  The list of flipped cells has each cell as
often as it is hit (`count_cells`), and the picture, the collision and the mark
follow from these numbers alone.
-/

set_option autoImplicit false

namespace Chip8

namespace Sprite

/-! ## Bits and the cells that they hit -/

/-- Whether the bit in row `j` and column `i` of a sprite is set. -/
def bit (sprite : List UInt8) (j i : Nat) : Bool :=
  (sprite.getD j 0).toNat.testBit (7 - i)

/-- The set bits that hit a cell, by row and column, with the sprite at `x` and
`y`. -/
def hits (sprite : List UInt8) (x y : Nat) (c : Cell) : Finset (Nat × Nat) :=
  (Finset.range sprite.length ×ˢ Finset.range 8).filter fun b =>
    bit sprite b.1 b.2 = true ∧ (x + b.2) % 64 = c.column.val ∧ (y + b.1) % 32 = c.row.val

/-- The same for the bits of one row. -/
def rowHits (row : UInt8) (x y : Nat) (c : Cell) : Finset Nat :=
  (Finset.range 8).filter fun i =>
    isSet row i = true ∧ (x + i) % 64 = c.column.val ∧ y % 32 = c.row.val

theorem mem_hits {sprite : List UInt8} {x y j i : Nat} {c : Cell} :
    (j, i) ∈ hits sprite x y c ↔
      (j < sprite.length ∧ i < 8) ∧
        bit sprite j i = true ∧ (x + i) % 64 = c.column.val ∧ (y + j) % 32 = c.row.val := by
  simp only [hits, Finset.mem_filter, Finset.mem_product, Finset.mem_range]

theorem card_hits (sprite : List UInt8) (x y : Nat) (c : Cell) :
    (hits sprite x y c).card =
      ∑ j ∈ Finset.range sprite.length, (rowHits (sprite.getD j 0) x (y + j) c).card := by
  simp only [hits, rowHits, Finset.card_filter, Finset.sum_product]
  rfl

/-- The hits of a sprite are those of its first row and those of the others, one
row further down. -/
theorem card_hits_cons (row : UInt8) (rows : List UInt8) (x y : Nat) (c : Cell) :
    (hits (row :: rows) x y c).card =
      (rowHits row x y c).card + (hits rows x (y + 1) c).card := by
  rw [card_hits, card_hits, List.length_cons, Finset.sum_range_succ', Nat.add_comm]
  refine congrArg ((rowHits row x y c).card + ·) (Finset.sum_congr rfl fun j _ => ?_)
  have hrow : y + (j + 1) = y + 1 + j := by omega
  rw [hrow, List.getD_cons_succ]

/-- A cell is hit from wherever the row is the same on the screen. -/
theorem hits_congr {y y' : Nat} (h : y % 32 = y' % 32) (sprite : List UInt8) (x : Nat) (c : Cell) :
    hits sprite x y c = hits sprite x y' c := by
  unfold hits
  refine Finset.filter_congr fun b _ => ?_
  have hrow : (y + b.1) % 32 = (y' + b.1) % 32 := by omega
  rw [hrow]

/-! ## The list of flipped cells -/

/-- A sum that wraps around at `2 ^ 64` comes to the same place on the screen. -/
theorem toNat_add_mod {m : Nat} (hm : m ∣ 2 ^ 64) (x : UInt64) (i : Nat) :
    (x + UInt64.ofNat i).toNat % m = (x.toNat + i) % m := by
  rw [UInt64.toNat_add, UInt64.toNat_ofNat', Nat.add_mod_mod, Nat.mod_mod_of_dvd _ hm]

theorem wrap_eq_iff {x y : UInt64} {c : Cell} :
    Cell.wrap x y = c ↔ x.toNat % 64 = c.column.val ∧ y.toNat % 32 = c.row.val := by
  obtain ⟨column, row⟩ := c
  simp only [Cell.wrap, Cell.mk.injEq, Fin.ext_iff]

theorem wrap_add_eq_iff (x y : UInt64) (i j : Nat) {c : Cell} :
    Cell.wrap (x + UInt64.ofNat i) (y + UInt64.ofNat j) = c ↔
      (x.toNat + i) % 64 = c.column.val ∧ (y.toNat + j) % 32 = c.row.val := by
  rw [wrap_eq_iff, toNat_add_mod (by decide), toNat_add_mod (by decide)]

theorem countP_range (p : Nat → Bool) (n : Nat) :
    (List.range n).countP p = ((Finset.range n).filter fun i => p i = true).card := by
  simp only [List.countP_eq_length_filter, Finset.card, Finset.filter_val, Finset.range_val,
    Multiset.range, Multiset.filter_coe, Multiset.coe_card, Bool.decide_eq_true]

theorem count_rowCells (row : UInt8) (x y : UInt64) (c : Cell) :
    (rowCells row x y).count c = (rowHits row x.toNat y.toNat c).card := by
  rw [rowCells, List.count, List.countP_map, List.countP_filter, countP_range, rowHits]
  congr 1
  refine Finset.filter_congr fun i _ => ?_
  simp only [Function.comp_apply, Bool.and_eq_true, beq_iff_eq, wrap_eq_iff,
    toNat_add_mod (show 64 ∣ 2 ^ 64 by decide)]
  exact and_comm

/-- Drawing flips each cell as often as it is hit. -/
theorem count_cells (sprite : List UInt8) (x y : UInt64) (c : Cell) :
    (cells sprite x y).count c = (hits sprite x.toNat y.toNat c).card := by
  induction sprite generalizing y with
  | nil => rfl
  | cons row rows ih =>
      have hnext : (y + 1).toNat % 32 = (y.toNat + 1) % 32 := toNat_add_mod (by decide) y 1
      calc (cells (row :: rows) x y).count c
          = (rowCells row x y).count c + (cells rows x (y + 1)).count c := List.count_append
        _ = (rowHits row x.toNat y.toNat c).card + (hits rows x.toNat (y + 1).toNat c).card := by
            rw [count_rowCells, ih]
        _ = (hits (row :: rows) x.toNat y.toNat c).card := by
            rw [hits_congr hnext, card_hits_cons]

theorem mem_cells_iff {sprite : List UInt8} {x y : UInt64} {c : Cell} :
    c ∈ cells sprite x y ↔ (hits sprite x.toNat y.toNat c).Nonempty := by
  rw [← List.count_pos_iff, count_cells, Finset.card_pos]

/-- Something is flipped if a bit is set. -/
theorem cells_ne_nil_iff (sprite : List UInt8) (x y : UInt64) :
    cells sprite x y ≠ [] ↔ ∃ j i, j < sprite.length ∧ i < 8 ∧ bit sprite j i = true := by
  constructor
  · intro hne
    obtain ⟨c, hc⟩ := List.exists_mem_of_ne_nil _ hne
    obtain ⟨⟨j, i⟩, hmem⟩ := mem_cells_iff.mp hc
    obtain ⟨⟨hj, hi⟩, hset, -, -⟩ := mem_hits.mp hmem
    exact ⟨j, i, hj, hi, hset⟩
  · rintro ⟨j, i, hj, hi, hset⟩
    have hmem : (⟨⟨(x.toNat + i) % 64, Nat.mod_lt _ (by decide)⟩,
        ⟨(y.toNat + j) % 32, Nat.mod_lt _ (by decide)⟩⟩ : Cell) ∈ cells sprite x y :=
      mem_cells_iff.mpr ⟨(j, i), mem_hits.mpr ⟨⟨hj, hi⟩, hset, rfl, rfl⟩⟩
    exact List.ne_nil_of_mem hmem

/-- A sprite that is no taller than the screen hits no cell twice. -/
theorem card_hits_le_one {sprite : List UInt8} (h : sprite.length ≤ 32) (x y : Nat) (c : Cell) :
    (hits sprite x y c).card ≤ 1 := by
  rw [Finset.card_le_one]
  rintro ⟨j, i⟩ hmem ⟨j', i'⟩ hmem'
  obtain ⟨⟨hj, hi⟩, -, hcolumn, hrow⟩ := mem_hits.mp hmem
  obtain ⟨⟨hj', hi'⟩, -, hcolumn', hrow'⟩ := mem_hits.mp hmem'
  rw [Prod.mk.injEq]
  omega

end Sprite

namespace Screen

/-! ## Collisions -/

/-- One of the flipped cells was lit at its turn if it was lit before all of them,
or if it is flipped twice. -/
theorem collided_toggleAll (s : Screen) (cs : List Cell) :
    (s.toggleAll cs).2 = true ↔
      ∃ c, (1 ≤ cs.count c ∧ s.lit c = true) ∨ 2 ≤ cs.count c := by
  induction cs generalizing s with
  | nil => simp
  | cons d cs ih =>
      rw [toggleAll_cons, Bool.or_eq_true, ih]
      constructor
      · rintro (hlit | ⟨c, hc⟩)
        · exact ⟨d, Or.inl ⟨by simp, hlit⟩⟩
        · refine ⟨c, ?_⟩
          rw [lit_toggle] at hc
          rw [List.count_cons]
          by_cases hdc : d = c
          · -- The first cell occurs again.
            subst hdc
            right
            simp only [beq_self_eq_true, ↓reduceIte]
            omega
          · simpa [hdc] using hc
      · rintro ⟨c, hc⟩
        rw [List.count_cons] at hc
        by_cases hdc : d = c
        · subst hdc
          simp only [beq_self_eq_true, ↓reduceIte] at hc
          by_cases hlit : s.lit d = true
          · exact Or.inl hlit
          · -- It was dark before, so it is lit when it occurs again.
            have hagain : 1 ≤ cs.count d := by
              rcases hc with ⟨-, hc⟩ | hc
              · exact absurd hc hlit
              · omega
            exact Or.inr ⟨d, Or.inl ⟨hagain, by simp [lit_toggle, hlit]⟩⟩
        · right
          refine ⟨c, ?_⟩
          rw [lit_toggle]
          simpa [hdc] using hc

/-- A sprite that is no taller than the screen collides if one of its set bits
hits a pixel that was lit. -/
theorem collided_draw_of_short (s : Screen) {sprite : List UInt8} (h : sprite.length ≤ 32)
    (x y : UInt64) :
    (s.draw sprite x y).2 = true ↔
      ∃ j i, (j < sprite.length ∧ i < 8) ∧ Sprite.bit sprite j i = true ∧
        s.pixel (x + UInt64.ofNat i) (y + UInt64.ofNat j) = true := by
  rw [draw, collided_toggleAll]
  simp only [Sprite.count_cells]
  constructor
  · rintro ⟨c, hc⟩
    have hone := Sprite.card_hits_le_one h x.toNat y.toNat c
    obtain ⟨hhit, hlit⟩ : 1 ≤ (Sprite.hits sprite x.toNat y.toNat c).card ∧ s.lit c = true := by
      rcases hc with hc | hc
      · exact hc
      · omega
    obtain ⟨⟨j, i⟩, hmem⟩ := Finset.card_pos.mp hhit
    obtain ⟨hin, hset, hcolumn, hrow⟩ := Sprite.mem_hits.mp hmem
    refine ⟨j, i, hin, hset, ?_⟩
    rw [pixel, (Sprite.wrap_add_eq_iff x y i j).mpr ⟨hcolumn, hrow⟩]
    exact hlit
  · rintro ⟨j, i, hin, hset, hlit⟩
    obtain ⟨hcolumn, hrow⟩ := (Sprite.wrap_add_eq_iff x y i j).mp rfl
    refine ⟨_, Or.inl ⟨?_, hlit⟩⟩
    exact Finset.card_pos.mpr ⟨(j, i), Sprite.mem_hits.mpr ⟨hin, hset, hcolumn, hrow⟩⟩

/-! ## Drawing -/

/-- **What a sprite leaves on the screen.**  With the coordinates in exact
arithmetic, a pixel is flipped if it is hit an odd number of times.  There is a
collision if a pixel that was lit is hit, or any pixel is hit twice, and the
screen is marked if it was, or a bit of the sprite is set.

An instruction draws 255 rows at most, at coordinates that are bytes, and there
no coordinate reaches `2 ^ 64`. -/
theorem draw_follows_hits (s : Screen) (sprite : List UInt8) (x y : UInt64) :
    (∀ c, (s.draw sprite x y).1.lit c =
      (s.lit c ^^ decide ((Sprite.hits sprite x.toNat y.toNat c).card % 2 = 1))) ∧
    ((s.draw sprite x y).2 = true ↔
      ∃ c, (1 ≤ (Sprite.hits sprite x.toNat y.toNat c).card ∧ s.lit c = true) ∨
        2 ≤ (Sprite.hits sprite x.toNat y.toNat c).card) ∧
    ((s.draw sprite x y).1.dirty = true ↔
      s.dirty = true ∨ ∃ j i, j < sprite.length ∧ i < 8 ∧ Sprite.bit sprite j i = true) ∧
    (∀ (c : Cpu) (rows : UInt8) (v : Register), c.readBlock rows.toNat = .ok sprite →
      sprite.length ≤ 255 ∧ (c.reg v).toUInt64.toNat ≤ 255) ∧
    (x.toNat ≤ 255 → y.toNat ≤ 255 → sprite.length ≤ 255 →
      ∀ j i, j < sprite.length → i < 8 →
        (x + UInt64.ofNat i).toNat = x.toNat + i ∧ (y + UInt64.ofNat j).toNat = y.toNat + j) := by
  refine ⟨?_, ?_, ?_, ?_, ?_⟩
  · intro c
    rw [draw, lit_toggleAll, Sprite.count_cells]
  · rw [draw, collided_toggleAll]
    simp only [Sprite.count_cells]
  · rw [draw, dirty_toggleAll, Bool.or_eq_true, ← Sprite.cells_ne_nil_iff sprite x y]
    simp
  · intro c rows v hread
    have hlength : sprite.length = rows.toNat := c.length_readBlock (rows_lt rows) hread
    have hrows := rows.toNat_lt
    have hreg := (c.reg v).toNat_lt
    rw [UInt8.toNat_toUInt64]
    omega
  · intro hx hy hlength j i hj hi
    rw [UInt64.toNat_add, UInt64.toNat_add, UInt64.toNat_ofNat', UInt64.toNat_ofNat']
    omega

/-- One row more than the screen has, with the leftmost bit of each set. -/
def pillar : List UInt8 :=
  List.replicate 33 0x80

/-- A processor whose memory is full of such rows. -/
def quarry : Cpu :=
  { Cpu.initial with memory := ⟨Vector.replicate 0x1000 0x80⟩ }

/-- `draw_follows_hits` at the highest coordinates there are: the last row of the
sprite takes back the pixel that the first one had lit. -/
theorem draw_follows_hits_pillar :
    (blank.draw pillar 0xFFFFFFFFFFFFFFFF 0xFFFFFFFFFFFFFFFF).1.lit ⟨63, 31⟩ = false ∧
      (blank.draw pillar 0xFFFFFFFFFFFFFFFF 0xFFFFFFFFFFFFFFFF).1.lit ⟨63, 0⟩ = true ∧
      (blank.draw pillar 0xFFFFFFFFFFFFFFFF 0xFFFFFFFFFFFFFFFF).2 = true ∧
      quarry.readBlock 33 = .ok pillar ∧ pillar.length ≤ 255 ∧
      ((255 : UInt64) + UInt64.ofNat 32).toNat = 255 + 32 := by
  obtain ⟨hlit, hcollided, -, hread, -⟩ :=
    draw_follows_hits blank pillar 0xFFFFFFFFFFFFFFFF 0xFFFFFFFFFFFFFFFF
  have htwice : (Sprite.hits pillar 0xFFFFFFFFFFFFFFFF 0xFFFFFFFFFFFFFFFF ⟨63, 31⟩).card = 2 := by
    decide +kernel
  have honce : (Sprite.hits pillar 0xFFFFFFFFFFFFFFFF 0xFFFFFFFFFFFFFFFF ⟨63, 0⟩).card = 1 := by
    decide +kernel
  have hblock : quarry.readBlock (33 : UInt8).toNat = .ok pillar := by decide +kernel
  obtain ⟨-, -, -, -, hsums⟩ := draw_follows_hits blank pillar 255 255
  refine ⟨?_, ?_, ?_, hblock, (hread quarry 33 .flag hblock).1, ?_⟩
  · have h := hlit ⟨63, 31⟩
    rw [lit_blank] at h
    exact h.trans (by simp only [UInt64.reduceToNat, htwice]; rfl)
  · have h := hlit ⟨63, 0⟩
    rw [lit_blank] at h
    exact h.trans (by simp only [UInt64.reduceToNat, honce]; rfl)
  · exact hcollided.mpr ⟨⟨63, 31⟩, Or.inr (Nat.le_of_eq htwice.symm)⟩
  · exact (hsums (by decide) (by decide) (by decide) 32 0 (by decide) (by decide)).2

end Screen

end Chip8
