/-!
# Texts that are made of lines

A text is put together from lines, each with its newline behind it.  If no line has
a newline of its own, then the text falls to the same lines again, and nothing is
left behind the last one.
-/

set_option autoImplicit false

namespace Chip8.Lines

/-- The lines of a text.  What follows the last newline is no line. -/
def ofText (text : String) : List (List Char) :=
  (text.toList.splitOn '\n').dropLast

variable {ls : List String}

/-- Newlines behind lines stand between the lines and nothing. -/
theorem toList_join (ls : List String) :
    (String.join (ls.map (· ++ "\n"))).toList =
      ['\n'].intercalate (ls.map String.toList ++ [[]]) := by
  rw [String.toList_join, List.flatMap_map]
  induction ls with
  | nil => rfl
  | cons l ls ih =>
      have hrest : ls.map String.toList ++ [[]] ≠ [] := List.append_ne_nil_of_right_ne_nil _ nofun
      rw [List.flatMap_cons, ih, List.map_cons, List.cons_append,
        List.intercalate_cons_of_ne_nil hrest, String.toList_append]
      rfl

/-- A text falls to its lines at its newlines. -/
theorem splitOn_join (h : ∀ l ∈ ls, '\n' ∉ l.toList) :
    (String.join (ls.map (· ++ "\n"))).toList.splitOn '\n' = ls.map String.toList ++ [[]] := by
  have hnewline : ∀ l ∈ ls.map String.toList ++ [[]], '\n' ∉ l := by
    intro l hl
    rw [List.mem_append, List.mem_map, List.mem_singleton] at hl
    rcases hl with ⟨s, hs, rfl⟩ | rfl
    · exact h s hs
    · exact List.not_mem_nil
  rw [toList_join]
  exact List.splitOn_intercalate '\n' hnewline (List.append_ne_nil_of_right_ne_nil _ nofun)

theorem ofText_join (h : ∀ l ∈ ls, '\n' ∉ l.toList) :
    ofText (String.join (ls.map (· ++ "\n"))) = ls.map String.toList := by
  rw [ofText, splitOn_join h, List.dropLast_concat]

end Chip8.Lines
