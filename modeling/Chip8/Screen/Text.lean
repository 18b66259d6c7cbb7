import Chip8.Screen

/-!
# The screen as text

One line per row, from the top; `#` for a lit pixel and `.` for a dark one.
-/

set_option autoImplicit false

namespace Chip8.Screen

/-- The character of one pixel. -/
def mark (lit : Bool) : Char :=
  if lit then '#' else '.'

/-- The characters of one row. -/
def line (s : Screen) (row : Fin 32) : List Char :=
  (List.finRange 64).map fun column => mark (s.lit ⟨column, row⟩)

/-- The lines of all rows, each with its newline. -/
def characters (s : Screen) : List Char :=
  (List.finRange 32).flatMap fun row => s.line row ++ ['\n']

/-- The picture as text. -/
def text (s : Screen) : String :=
  String.ofList s.characters

/-- Every line is as wide as the screen. -/
@[simp] theorem length_line (s : Screen) (row : Fin 32) : (s.line row).length = 64 := by
  simp [line]

/-- The character in a column of a line is that of its pixel. -/
theorem getElem_line (s : Screen) (row : Fin 32) (column : Nat) (h : column < 64) :
    (s.line row)[column]? = some (mark (s.lit ⟨⟨column, h⟩, row⟩)) := by
  simp [line, h]

end Chip8.Screen
