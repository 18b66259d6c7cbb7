import Chip8.Instruction.Decode
import Chip8.Instruction.Mnemonic
import Chip8.Memory

/-!
# Listings

A listing has one line for each whole word of a program: the address at which
the word would be loaded, the word, and the instruction it stands for, or `??`.
Programs mix code and data freely, so data show up as whatever instruction they
happen to look like.  Addresses go on counting past the end of memory for
programs that are too long to be loaded.
-/

set_option autoImplicit false

namespace Chip8.Listing

/-- The whole words of a program, high byte first.  A last odd byte belongs to none. -/
def words : List UInt8 → List UInt16
  | high :: low :: rest => Word.ofBytes high low :: words rest
  | _ => []

/-- The instruction that a word stands for, as text. -/
def meaning (w : UInt16) : String :=
  match Instruction.ofWord w with
  | .ok i => i.mnemonic
  | .error _ => "??"

/-- The line for a word at an address, without its newline. -/
def line (address : Nat) (w : UInt16) : String :=
  Hex.text 3 address ++ "  " ++ Hex.text 4 w.toNat ++ "  " ++ meaning w

/-- The lines for words that lie one after the other from an address on. -/
def lines : Nat → List UInt16 → List String
  | _, [] => []
  | address, w :: ws => line address w :: lines (address + 2) ws

/-- The lines of a program. -/
def ofProgram (program : List UInt8) : List String :=
  lines Memory.programStart (words program)

/-- The listing of a program as text; every line ends with a newline. -/
def text (program : List UInt8) : String :=
  String.join ((ofProgram program).map (· ++ "\n"))

/-- There is one word for each pair of bytes. -/
theorem length_words : ∀ p : List UInt8, (words p).length = p.length / 2
  | [] => rfl
  | [_] => by simp [words]
  | _ :: _ :: rest => by
      have ih := length_words rest
      simp only [words, List.length_cons, ih]
      omega

/-- There is one line for each word. -/
theorem length_lines (address : Nat) (ws : List UInt16) :
    (lines address ws).length = ws.length := by
  induction ws generalizing address with
  | nil => rfl
  | cons w ws ih => simp [lines, ih]

/-- There is one line for each pair of bytes. -/
theorem length_ofProgram (p : List UInt8) : (ofProgram p).length = p.length / 2 := by
  rw [ofProgram, length_lines, length_words]

end Chip8.Listing
