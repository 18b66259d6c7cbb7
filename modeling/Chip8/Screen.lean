/-!
# The screen

The screen has 64 columns and 32 rows of pixels that are lit or dark, and a
mark that says whether anything may have changed since a viewer last took the
picture.  Coordinates are 64-bit numbers and wrap around both edges.

Pixels change in two ways only: all of them go dark, or one of them is flipped.
`lit_toggle` and `lit_clear` say what the pixels are afterwards, and everything
about sprites follows from them.
-/

set_option autoImplicit false

namespace Chip8

/-! ## Cells -/

/-- A place on the screen. -/
structure Cell where
  /-- The column, counted from the left. -/
  column : Fin 64
  /-- The row, counted from the top. -/
  row : Fin 32
  deriving DecidableEq, Repr

namespace Cell

/-- Cells are kept row by row. -/
@[inline] def index (c : Cell) : Fin 2048 :=
  ⟨64 * c.row.val + c.column.val, by omega⟩

/-- Different cells are kept in different places. -/
theorem index_inj {c d : Cell} : c.index = d.index ↔ c = d := by
  constructor
  · intro h
    have h' : 64 * c.row.val + c.column.val = 64 * d.row.val + d.column.val :=
      congrArg Fin.val h
    obtain ⟨⟨p, hp⟩, ⟨q, hq⟩⟩ := c
    obtain ⟨⟨p', hp'⟩, ⟨q', hq'⟩⟩ := d
    simp only at h'
    simp only [mk.injEq, Fin.mk.injEq]
    omega
  · rintro rfl
    rfl

/-- The cell at a pair of coordinates, wrapped around both edges. -/
@[inline] def wrap (x y : UInt64) : Cell :=
  ⟨⟨x.toNat % 64, Nat.mod_lt _ (by decide)⟩, ⟨y.toNat % 32, Nat.mod_lt _ (by decide)⟩⟩

end Cell

/-! ## Pixels -/

/-- The picture, and whether a viewer still has to be shown it. -/
structure Screen where
  /-- Whether each pixel is lit, row by row. -/
  pixels : Vector Bool 2048
  /-- Whether something may have changed since the last refresh. -/
  dirty : Bool
  deriving DecidableEq

namespace Screen

/-- A dark screen, which nobody has seen yet. -/
def blank : Screen :=
  ⟨Vector.replicate 2048 false, true⟩

instance : Inhabited Screen := ⟨blank⟩

/-- Whether a cell is lit. -/
@[inline] def lit (s : Screen) (c : Cell) : Bool :=
  s.pixels[c.index]

/-- Whether the pixel at a pair of coordinates is lit. -/
def pixel (s : Screen) (x y : UInt64) : Bool :=
  s.lit (Cell.wrap x y)

/-- All pixels dark. -/
def clear (_ : Screen) : Screen :=
  ⟨Vector.replicate 2048 false, true⟩

/-- One pixel flipped. -/
def toggle (s : Screen) (c : Cell) : Screen :=
  let flipped := !s.lit c
  ⟨s.pixels.set c.index flipped, true⟩

/-- Makes the next refresh hand the picture over, changed or not. -/
def forceRefresh (s : Screen) : Screen :=
  { s with dirty := true }

/-- A blank screen is dark everywhere. -/
@[simp] theorem lit_blank (c : Cell) : blank.lit c = false := by
  simp [blank, lit]

/-- A cleared screen is dark everywhere. -/
@[simp] theorem lit_clear (s : Screen) (c : Cell) : s.clear.lit c = false := by
  simp [clear, lit]

/-- Flipping a cell flips that cell and no other. -/
theorem lit_toggle (s : Screen) (c d : Cell) :
    (s.toggle c).lit d = if c = d then !s.lit d else s.lit d := by
  unfold toggle lit
  by_cases h : c = d
  · subst h
    simp
  · have hne : c.index.val ≠ d.index.val := fun hv => h (Cell.index_inj.mp (Fin.ext hv))
    simp [h, hne]

@[simp] theorem dirty_clear (s : Screen) : s.clear.dirty = true := rfl

@[simp] theorem dirty_toggle (s : Screen) (c : Cell) : (s.toggle c).dirty = true := rfl

@[simp] theorem dirty_forceRefresh (s : Screen) : s.forceRefresh.dirty = true := rfl

/-- Two screens with the same lit cells have the same pixels. -/
theorem pixels_eq_of_lit {s t : Screen} (h : ∀ c, s.lit c = t.lit c) :
    s.pixels = t.pixels := by
  refine Vector.ext fun i hi => ?_
  -- Every position is the place of some cell.
  have hc : (Cell.mk ⟨i % 64, by omega⟩ ⟨i / 64, by omega⟩).index = ⟨i, hi⟩ :=
    Fin.ext (by simp only [Cell.index]; omega)
  have := h (Cell.mk ⟨i % 64, by omega⟩ ⟨i / 64, by omega⟩)
  simpa only [lit, hc, Fin.getElem_fin] using this

/-! ## Refreshing -/

/-- What a refresh came to. -/
inductive Refresh (ε : Type) where
  /-- Nothing had changed, and the viewer was not asked. -/
  | idle
  /-- The viewer took the picture. -/
  | taken (picture : Screen)
  /-- The viewer was shown the picture and failed. -/
  | failed (picture : Screen) (error : ε)

/-- Shows the picture to a viewer if it changed since the last refresh.  Only a
viewer that succeeds settles the change, so after a failure the next refresh
shows the picture again. -/
def refresh {ε : Type} (viewer : Screen → Except ε Unit) (s : Screen) : Refresh ε × Screen :=
  if s.dirty then
    match viewer s with
    | .ok () => (.taken s, { s with dirty := false })
    | .error e => (.failed s e, s)
  else
    (.idle, s)

end Screen

end Chip8
