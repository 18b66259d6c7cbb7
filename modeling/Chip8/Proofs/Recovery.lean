import Chip8.Proofs.Lines
import Chip8.Proofs.Listing
import Chip8.Proofs.Mnemonics

/-!
# What can be got back from a listing

Addresses grow past three digits and mnemonics have all lengths, so the columns of
a listing do not stand at fixed places in its text.  But a newline stands only at
the end of a line (`newline_not_mem_line`), and a blank never in a number.  Taken
to pieces at its newlines and blanks, the text gives back the bytes that it was
made from (`recover_text`), and nothing but these went into it (`text_take`).
-/

set_option autoImplicit false

namespace Chip8

theorem Instruction.mnemonic_ne_unknown (i : Instruction) : i.mnemonic ≠ "??" := by
  intro h
  have hread := i.read?_mnemonic
  rw [h, show read? "??" = none from rfl] at hread
  exact absurd hread nofun

namespace Listing

/-! ## Columns -/

/-- The columns of a line. -/
structure Columns where
  address : String
  word : String
  meaning : String

/-- Two blanks stand between the columns. -/
def Columns.line (c : Columns) : String :=
  c.address ++ "  " ++ c.word ++ "  " ++ c.meaning

/-- The columns show a word, given by its bytes, and where it lies.  The word is
said to be unknown if and only if it decodes to nothing. -/
structure Columns.Shows (c : Columns) (address : Nat) (high low : UInt8) : Prop where
  address : Hex.IsNumeral 3 address c.address.toList
  word : Hex.IsNumeral 4 (256 * high.toNat + low.toNat) c.word.toList
  four : c.word.toList.length = 4
  known : ∀ i, Instruction.ofWord (Word.ofBytes high low) = .ok i → c.meaning = i.mnemonic
  unknown : c.meaning = "??" ↔ ∀ i, Instruction.ofWord (Word.ofBytes high low) ≠ .ok i

/-- The columns of the line for a word. -/
def columns (address : Nat) (w : UInt16) : Columns where
  address := Hex.text 3 address
  word := Hex.text 4 w.toNat
  meaning := meaning w

theorem length_word (w : UInt16) : (Hex.padded 4 w.toNat).length = 4 :=
  Hex.length_padded w.toNat_lt

theorem meaning_eq_unknown_iff {w : UInt16} :
    meaning w = "??" ↔ ∀ i, Instruction.ofWord w ≠ .ok i := by
  cases hword : Instruction.ofWord w with
  | ok i =>
      simp only [meaning, hword, i.mnemonic_ne_unknown, false_iff]
      exact fun hne => hne i rfl
  | error e =>
      simp only [meaning, hword, true_iff]
      intro i hok
      cases hok

theorem shows_columns (address : Nat) (high low : UInt8) :
    (columns address (Word.ofBytes high low)).Shows address high low where
  address := by
    simp only [columns, Hex.toList_text]
    exact Hex.isNumeral_padded (by decide) address
  word := by
    simp only [columns, Hex.toList_text, ← Word.toNat_ofBytes]
    exact Hex.isNumeral_padded (by decide) _
  four := by
    simp only [columns, Hex.toList_text]
    exact length_word _
  known := by
    intro i hword
    simp only [columns, meaning, hword]
  unknown := meaning_eq_unknown_iff

/-! ## Lines -/

theorem newline_not_mem_meaning (w : UInt16) : '\n' ∉ (meaning w).toList := by
  cases hword : Instruction.ofWord w with
  | ok i =>
      simp only [meaning, hword]
      exact i.newline_not_mem_mnemonic
  | error e =>
      simp only [meaning, hword]
      decide

theorem newline_not_mem_number (width n : Nat) : '\n' ∉ (Hex.text width n).toList :=
  fun hmem => (Instruction.plain_text width n _ hmem).2.2 rfl

/-- A line is one line. -/
theorem newline_not_mem_line (address : Nat) (w : UInt16) : '\n' ∉ (line address w).toList := by
  have hblanks : '\n' ∉ "  ".toList := by decide
  simp only [line, String.toList_append, List.mem_append, not_or]
  exact ⟨⟨⟨⟨newline_not_mem_number 3 address, hblanks⟩, newline_not_mem_number 4 _⟩, hblanks⟩,
    newline_not_mem_meaning w⟩

theorem newline_not_mem_lines {address : Nat} {ws : List UInt16} {l : String}
    (h : l ∈ lines address ws) : '\n' ∉ l.toList := by
  induction ws generalizing address with
  | nil => exact absurd h List.not_mem_nil
  | cons w ws ih =>
      rw [lines, List.mem_cons] at h
      rcases h with rfl | hrest
      · exact newline_not_mem_line address w
      · exact ih hrest

/-- A listing falls to its lines at its newlines. -/
theorem splitOn_text (p : List UInt8) :
    (text p).toList.splitOn '\n' = (ofProgram p).map String.toList ++ [[]] :=
  Lines.splitOn_join fun _ hl => newline_not_mem_lines hl

/-! ## Reading back -/

/-- The bytes of a word, the high one first. -/
def bytes (w : UInt16) : List UInt8 :=
  [UInt8.ofNat (w.toNat / 256), UInt8.ofNat w.toNat]

/-- The word in the second column of a line. -/
def wordIn (line : List Char) : UInt16 :=
  UInt16.ofNat (Hex.read (((line.dropWhile (· != ' ')).drop 2).take 4))

/-- The bytes that are listed in a text. -/
def recover (text : String) : List UInt8 :=
  (text.toList.splitOn '\n').dropLast.flatMap fun line => bytes (wordIn line)

theorem bytes_ofBytes (high low : UInt8) : bytes (Word.ofBytes high low) = [high, low] := by
  have hlow := low.toNat_lt
  have hdiv : (256 * high.toNat + low.toNat) / 256 = high.toNat := by omega
  have hmod : UInt8.ofNat (256 * high.toNat + low.toNat) = low := by
    apply UInt8.toNat.inj
    rw [UInt8.toNat_ofNat']
    omega
  rw [bytes, Word.toNat_ofBytes, hdiv, hmod, UInt8.ofNat_toNat]

/-- The whole pairs of a program, one at a time. -/
theorem take_pairs_cons (high low : UInt8) (rest : List UInt8) :
    (high :: low :: rest).take (2 * ((high :: low :: rest).length / 2)) =
      high :: low :: rest.take (2 * (rest.length / 2)) := by
  have hlength : 2 * ((high :: low :: rest).length / 2) = 2 * (rest.length / 2) + 1 + 1 := by
    simp only [List.length_cons]
    omega
  rw [hlength, List.take_succ_cons, List.take_succ_cons]

theorem flatMap_bytes_words : ∀ p : List UInt8,
    (words p).flatMap bytes = p.take (2 * (p.length / 2))
  | [] => rfl
  | [_] => by simp [words]
  | high :: low :: rest => by
      rw [words, List.flatMap_cons, bytes_ofBytes, flatMap_bytes_words rest, take_pairs_cons]
      rfl

theorem drop_blanks (cs : List Char) :
    (([' ', ' '] ++ cs).dropWhile (· != ' ')).drop 2 = cs :=
  rfl

theorem wordIn_line (address : Nat) (w : UInt16) : wordIn (line address w).toList = w := by
  have hblank : ∀ c ∈ (Hex.text 3 address).toList, (c != ' ') = true :=
    fun c hc => bne_iff_ne.mpr (Instruction.plain_text 3 address c hc).1
  have htail : (line address w).toList = (Hex.text 3 address).toList ++
      ([' ', ' '] ++ (Hex.padded 4 w.toNat ++ ([' ', ' '] ++ (meaning w).toList))) := by
    simp only [line, String.toList_append, List.append_assoc, Hex.toList_text]
    rfl
  rw [wordIn, htail, List.dropWhile_append_of_pos hblank, drop_blanks,
    List.take_left' (length_word w), Hex.read_padded, UInt16.ofNat_toNat]

theorem flatMap_wordIn_lines (address : Nat) (ws : List UInt16) :
    (lines address ws).flatMap (fun l => bytes (wordIn l.toList)) = ws.flatMap bytes := by
  induction ws generalizing address with
  | nil => rfl
  | cons w ws ih => rw [lines, List.flatMap_cons, wordIn_line, ih, List.flatMap_cons]

/-- What is listed is got back. -/
theorem recover_text (p : List UInt8) : recover (text p) = p.take (2 * (p.length / 2)) := by
  rw [recover, splitOn_text, List.dropLast_concat, List.flatMap_map, ofProgram,
    flatMap_wordIn_lines, flatMap_bytes_words]

theorem words_take : ∀ p : List UInt8, words (p.take (2 * (p.length / 2))) = words p
  | [] => rfl
  | [_] => by simp [words]
  | high :: low :: rest => by
      rw [take_pairs_cons, words, words, words_take rest]

/-- A last odd byte leaves no trace. -/
theorem text_take (p : List UInt8) : text (p.take (2 * (p.length / 2))) = text p := by
  rw [text, text, ofProgram, ofProgram, words_take]

theorem text_eq_iff {p q : List UInt8} :
    text p = text q ↔ p.length / 2 = q.length / 2 ∧
      p.take (2 * (p.length / 2)) = q.take (2 * (p.length / 2)) := by
  constructor
  · intro h
    have hbytes : p.take (2 * (p.length / 2)) = q.take (2 * (q.length / 2)) := by
      rw [← recover_text p, h, recover_text]
    have hlength : p.length / 2 = q.length / 2 := by
      have := congrArg List.length hbytes
      simp only [List.length_take] at this
      omega
    exact ⟨hlength, hlength ▸ hbytes⟩
  · rintro ⟨hlength, hbytes⟩
    rw [← text_take p, hbytes, hlength, text_take]

/-- **A listing determines the program.**  Its text is made of one line for each
pair of bytes, every line has its newline at its end and nowhere else, and the
columns of the line show the address at which the pair would be loaded, the pair
and what it means.  Two programs have the same listing if and only if they have
as many pairs and agree on them, and the pairs can be read back from the text. -/
theorem listing_determines_program :
    (∀ p : List UInt8, ∃ ls : List String,
      text p = String.join (ls.map (· ++ "\n")) ∧ ls.length = p.length / 2 ∧
        (∀ l ∈ ls, '\n' ∉ l.toList) ∧
        ∀ n high low, p[2 * n]? = some high → p[2 * n + 1]? = some low →
          ∃ c : Columns, ls[n]? = some c.line ∧ c.Shows (0x200 + 2 * n) high low) ∧
    (∀ p q : List UInt8, text p = text q ↔ p.length / 2 = q.length / 2 ∧
      p.take (2 * (p.length / 2)) = q.take (2 * (p.length / 2))) ∧
    ∀ p : List UInt8, recover (text p) = p.take (2 * (p.length / 2)) := by
  refine ⟨?_, fun p q => text_eq_iff, recover_text⟩
  intro p
  refine ⟨ofProgram p, rfl, length_ofProgram p, fun l hl => newline_not_mem_lines hl, ?_⟩
  rintro n high low hhigh hlow
  obtain ⟨-, rfl⟩ := List.getElem?_eq_some_iff.mp hhigh
  obtain ⟨hpair, rfl⟩ := List.getElem?_eq_some_iff.mp hlow
  exact ⟨columns _ (Word.ofBytes p[2 * n] p[2 * n + 1]), getElem?_ofProgram hpair,
    shows_columns _ _ _⟩

/-- `listing_determines_program` for a program of five bytes with a word that is no
instruction: the fifth byte does not show. -/
theorem listing_determines_program_odd :
    (∃ ls : List String,
      text [0x00, 0xE0, 0xFF, 0xFE, 0x12] = String.join (ls.map (· ++ "\n")) ∧ ls.length = 2 ∧
        ∃ c : Columns, ls[1]? = some c.line ∧ c.Shows 0x202 0xFF 0xFE ∧ c.meaning = "??") ∧
    text [0x00, 0xE0, 0xFF, 0xFE, 0x12] = text [0x00, 0xE0, 0xFF, 0xFE] ∧
    recover (text [0x00, 0xE0, 0xFF, 0xFE, 0x12]) = [0x00, 0xE0, 0xFF, 0xFE] := by
  obtain ⟨hlines, heq, hrecover⟩ := listing_determines_program
  refine ⟨?_, (heq _ _).mpr ⟨rfl, rfl⟩, hrecover _⟩
  obtain ⟨ls, htext, hlength, -, hshows⟩ := hlines [0x00, 0xE0, 0xFF, 0xFE, 0x12]
  obtain ⟨c, hline, hshown⟩ := hshows 1 0xFF 0xFE rfl rfl
  have hunknown : Instruction.ofWord (Word.ofBytes 0xFF 0xFE) = .error ⟨0xFFFE⟩ := rfl
  refine ⟨ls, htext, hlength, c, hline, hshown, hshown.unknown.mpr fun i => ?_⟩
  rw [hunknown]
  nofun

end Listing

end Chip8
