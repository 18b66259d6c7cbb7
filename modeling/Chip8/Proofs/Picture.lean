import Chip8.Proofs.Hits
import Chip8.Proofs.Lines
import Chip8.Screen.Text

/-!
# The text of a screen shows the picture

A pixel is found by its column and its row, and of a text the characters follow one
another.  Between the two stand the lines of the text (`ofText_text`): there is one for
each row, with one mark for each column.  So a mark can be looked up in the text where
its pixel is on the screen (`charAt?_text`), and the picture can be read back.

No mark tells whether a viewer still has to be shown the picture, so a text is as good
as the pixels and no better (`text_eq_iff`).
-/

set_option autoImplicit false

namespace Chip8.Screen

/-! ## Lines -/

/-- The line of each row, without its newline. -/
def lines (s : Screen) : List String :=
  (List.finRange 32).map fun row => String.ofList (s.line row)

/-- The character in a column of a line of a text. -/
def charAt? (text : String) (column line : Nat) : Option Char :=
  (Lines.ofText text)[line]?.bind fun l => l[column]?

/-- The pixels that a text shows by its marks. -/
def readPixels (text : String) : Vector Bool 2048 :=
  Vector.ofFn fun i => charAt? text (i.val % 64) (i.val / 64) == some '#'

section Text

variable (s : Screen)

theorem text_eq_join : s.text = String.join (s.lines.map (· ++ "\n")) := by
  apply String.toList_inj.mp
  simp only [text, characters, lines, String.toList_ofList, String.toList_join, List.flatMap_map,
    String.toList_append]
  rfl

/-- The newline is no mark. -/
theorem newline_not_mem_lines {l : String} (h : l ∈ s.lines) : '\n' ∉ l.toList := by
  simp only [lines, List.mem_map] at h
  obtain ⟨row, -, rfl⟩ := h
  rw [String.toList_ofList, line, List.mem_map]
  rintro ⟨column, -, hmark⟩
  unfold mark at hmark
  split at hmark <;> exact absurd hmark (by decide)

/-- The text falls to one line for each row. -/
theorem ofText_text : Lines.ofText s.text = (List.finRange 32).map s.line := by
  rw [text_eq_join, Lines.ofText_join fun l hl => s.newline_not_mem_lines hl, lines, List.map_map]
  refine List.map_congr_left fun row _ => ?_
  rw [Function.comp_apply, String.toList_ofList]

/-- A mark stands in the text where its pixel is on the screen. -/
theorem charAt?_text {p q : Nat} (hp : p < 64) (hq : q < 32) :
    charAt? s.text p q = some (if s.lit ⟨⟨p, hp⟩, ⟨q, hq⟩⟩ = true then '#' else '.') := by
  have hline : ((List.finRange 32).map s.line)[q]? = some (s.line ⟨q, hq⟩) := by
    simp [hq]
  rw [charAt?, ofText_text, hline, Option.bind_some, s.getElem_line _ _ hp, mark]

/-- The picture is read back from its text. -/
theorem readPixels_text : readPixels s.text = s.pixels := by
  refine pixels_eq_of_lit (s := ⟨readPixels s.text, s.dirty⟩) fun c => ?_
  have hcolumn : c.index.val % 64 = c.column.val := by
    simp only [Cell.index]
    omega
  have hrow : c.index.val / 64 = c.row.val := by
    simp only [Cell.index]
    omega
  have hread : (⟨readPixels s.text, s.dirty⟩ : Screen).lit c =
      (charAt? s.text c.column.val c.row.val == some '#') := by
    simp only [lit, readPixels, Fin.getElem_fin, Vector.getElem_ofFn, hcolumn, hrow]
  rw [hread, s.charAt?_text c.column.isLt c.row.isLt]
  cases s.lit c <;> rfl

/-- Screens with the same pixels have the same text. -/
theorem text_congr {s t : Screen} (h : s.pixels = t.pixels) : s.text = t.text := by
  simp only [text, characters, line, lit, h]

theorem text_eq_iff {s t : Screen} : s.text = t.text ↔ s.pixels = t.pixels := by
  constructor
  · intro htext
    rw [← readPixels_text s, htext, readPixels_text]
  · exact text_congr

end Text

/-! ## Pixels -/

/-- On the screen no coordinate wraps around. -/
theorem pixel_ofNat (s : Screen) {x y : Nat} (hx : x < 64) (hy : y < 32) :
    s.pixel (UInt64.ofNat x) (UInt64.ofNat y) = s.lit ⟨⟨x, hx⟩, ⟨y, hy⟩⟩ := by
  have hx' : (UInt64.ofNat x).toNat = x :=
    UInt64.toNat_ofNat_of_lt' (Nat.lt_trans hx (by decide))
  have hy' : (UInt64.ofNat y).toNat = y :=
    UInt64.toNat_ofNat_of_lt' (Nat.lt_trans hy (by decide))
  have hcell : Cell.wrap (UInt64.ofNat x) (UInt64.ofNat y) = ⟨⟨x, hx⟩, ⟨y, hy⟩⟩ := by
    rw [Sprite.wrap_eq_iff, hx', hy']
    exact ⟨Nat.mod_eq_of_lt hx, Nat.mod_eq_of_lt hy⟩
  rw [pixel, hcell]

theorem pixels_eq_iff_pixel {s t : Screen} :
    s.pixels = t.pixels ↔ ∀ x y, s.pixel x y = t.pixel x y := by
  constructor
  · intro h x y
    simp only [pixel, lit, h]
  · intro h
    refine pixels_eq_of_lit fun c => ?_
    have hpixel := h (UInt64.ofNat c.column.val) (UInt64.ofNat c.row.val)
    rwa [pixel_ofNat s c.column.isLt c.row.isLt, pixel_ofNat t c.column.isLt c.row.isLt] at hpixel

/-! ## A sprite on its own -/

section Sprite

variable (s : Screen) {sprite : List UInt8} (h : sprite.length ≤ 32) (x y : UInt64)

include h

/-- On a cleared screen a cell is lit if a set bit hits it. -/
theorem lit_draw_clear (c : Cell) :
    (s.clear.draw sprite x y).1.lit c = true ↔
      (Sprite.hits sprite x.toNat y.toNat c).Nonempty := by
  have hone := Sprite.card_hits_le_one h x.toNat y.toNat c
  rw [draw, lit_toggleAll, lit_clear, Bool.false_xor, Sprite.count_cells, decide_eq_true_eq,
    ← Finset.card_pos]
  omega

/-- A bit is shown where it is drawn, and no other bit of the sprite is. -/
theorem lit_draw_clear_bit {j i : Nat} (hj : j < sprite.length) (hi : i < 8) :
    (s.clear.draw sprite x y).1.lit
        ⟨⟨(x.toNat + i) % 64, Nat.mod_lt _ (by decide)⟩,
          ⟨(y.toNat + j) % 32, Nat.mod_lt _ (by decide)⟩⟩ =
      Sprite.bit sprite j i := by
  rw [Bool.eq_iff_iff, lit_draw_clear s h]
  constructor
  · rintro ⟨⟨j', i'⟩, hmem⟩
    obtain ⟨⟨hj', hi'⟩, hset, hcolumn, hrow⟩ := Sprite.mem_hits.mp hmem
    obtain rfl : i' = i := by
      simp only at hcolumn
      omega
    obtain rfl : j' = j := by
      simp only at hrow
      omega
    exact hset
  · intro hset
    exact ⟨(j, i), Sprite.mem_hits.mpr ⟨⟨hj, hi⟩, hset, rfl, rfl⟩⟩

/-- Beside the sprite the screen is dark. -/
theorem lit_draw_clear_beside {c : Cell}
    (hbeside : ∀ j i, j < sprite.length → i < 8 →
      ¬ ((x.toNat + i) % 64 = c.column.val ∧ (y.toNat + j) % 32 = c.row.val)) :
    (s.clear.draw sprite x y).1.lit c = false := by
  rw [← Bool.not_eq_true, lit_draw_clear s h]
  rintro ⟨⟨j, i⟩, hmem⟩
  obtain ⟨⟨hj, hi⟩, -, hplace⟩ := Sprite.mem_hits.mp hmem
  exact hbeside j i hj hi hplace

end Sprite

/-- **The text of a screen shows the picture.**  It falls to 32 lines of 64
characters, each with its newline behind it and nothing after the last one, and the
character in a column of a line is `#` if the pixel is lit and `.` if it is dark.
The pixels can be read back from the text, so two screens have the same text if and
only if all their pixels agree, whether or not they have been shown since.

A sprite of at most 32 rows that is drawn on a cleared screen is shown bit by bit,
the most significant bit of each row leftmost, and wrapped around both edges; beside
it the screen is dark. -/
theorem text_shows_the_picture (s : Screen) :
    (s.text = String.join ((Lines.ofText s.text).map fun l => String.ofList l ++ "\n") ∧
      (Lines.ofText s.text).length = 32 ∧ ∀ l ∈ Lines.ofText s.text, l.length = 64) ∧
    (∀ x y : Nat, x < 64 → y < 32 →
      charAt? s.text x y =
        some (if s.pixel (UInt64.ofNat x) (UInt64.ofNat y) = true then '#' else '.')) ∧
    readPixels s.text = s.pixels ∧
    (∀ t : Screen, s.text = t.text ↔ ∀ x y, s.pixel x y = t.pixel x y) ∧
    (∀ (sprite : List UInt8) (x y : UInt64), sprite.length ≤ 32 →
      (∀ j i, j < sprite.length → i < 8 →
        charAt? (s.clear.draw sprite x y).1.text ((x.toNat + i) % 64) ((y.toNat + j) % 32) =
          some (if (sprite.getD j 0).toNat.testBit (7 - i) = true then '#' else '.')) ∧
      (∀ p q, p < 64 → q < 32 →
        (∀ j i, j < sprite.length → i < 8 →
          ¬ ((x.toNat + i) % 64 = p ∧ (y.toNat + j) % 32 = q)) →
        charAt? (s.clear.draw sprite x y).1.text p q = some '.')) := by
  refine ⟨⟨?_, ?_, ?_⟩, ?_, s.readPixels_text, ?_, ?_⟩
  · rw [ofText_text, List.map_map]
    exact s.text_eq_join.trans (by rw [lines, List.map_map]; rfl)
  · rw [ofText_text, List.length_map, List.length_finRange]
  · intro l hl
    rw [ofText_text, List.mem_map] at hl
    obtain ⟨row, -, rfl⟩ := hl
    exact s.length_line row
  · intro x y hx hy
    rw [pixel_ofNat s hx hy, s.charAt?_text hx hy]
  · intro t
    rw [text_eq_iff, pixels_eq_iff_pixel]
  · intro sprite x y h
    constructor
    · intro j i hj hi
      rw [charAt?_text _ (Nat.mod_lt _ (by decide)) (Nat.mod_lt _ (by decide)),
        lit_draw_clear_bit s h x y hj hi, Sprite.bit]
    · intro p q hp hq hbeside
      rw [charAt?_text _ hp hq, lit_draw_clear_beside s h x y hbeside]
      rfl

/-- `text_shows_the_picture` for two rows that reach across the lower right corner of
the screen, for pixels whose coordinates are exchanged, and for a screen that is to be
shown again. -/
theorem text_shows_the_picture_corner :
    charAt? (blank.clear.draw [0xC0, 0x40] 63 31).1.text 63 31 = some '#' ∧
      charAt? (blank.clear.draw [0xC0, 0x40] 63 31).1.text 0 31 = some '#' ∧
      charAt? (blank.clear.draw [0xC0, 0x40] 63 31).1.text 63 0 = some '.' ∧
      charAt? (blank.clear.draw [0xC0, 0x40] 63 31).1.text 0 0 = some '#' ∧
      charAt? (blank.clear.draw [0xC0, 0x40] 63 31).1.text 7 1 = some '.' ∧
      (blank.draw [0x80] 5 9).1.text ≠ (blank.draw [0x80] 9 5).1.text ∧
      blank.forceRefresh.text = blank.text := by
  obtain ⟨-, -, -, -, hsprite⟩ := text_shows_the_picture blank
  obtain ⟨hbits, hbeside⟩ := hsprite [0xC0, 0x40] 63 31 (by decide)
  obtain ⟨-, -, -, hmarks, -⟩ := text_shows_the_picture blank.forceRefresh
  obtain ⟨-, -, -, hturned, -⟩ := text_shows_the_picture (blank.draw [0x80] 5 9).1
  refine ⟨hbits 0 0 (by decide) (by decide), hbits 0 1 (by decide) (by decide),
    hbits 1 0 (by decide) (by decide), hbits 1 1 (by decide) (by decide),
    hbeside 7 1 (by decide) (by decide) ?_, ?_, (hmarks blank).mpr fun _ _ => rfl⟩
  · intro j i hj hi hplace
    simp only [UInt64.reduceToNat] at hplace
    omega
  · intro hsame
    exact absurd ((hturned _).mp hsame 5 9) (by decide +kernel)

end Chip8.Screen
