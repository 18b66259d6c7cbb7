import Chip8.Proofs.Glyphs
import Mathlib.Data.List.Induction
import Mathlib.Order.Bounds.Basic

/-!
# Memory holds what was written last

Programs are loaded, bytes are written and read, in any order and at any address,
and some of this is refused.  Of a history of such acts only one thing can be seen
later on: at each address the byte that was put there last, or the byte of a new
memory if none was put there (`latest`).  So a memory answers as a plain table
would that maps addresses to bytes (`answer_of_fits`), and every act is accepted
or refused by where it ends, in exact arithmetic (`perform_of_not_fits`).
-/

set_option autoImplicit false

namespace Chip8.Memory

/-! ## Acts and their answers -/

/-- One use of a memory. -/
inductive Act where
  /-- A program is loaded. -/
  | load (program : List UInt8)
  /-- Bytes are written from an address on. -/
  | write (start : UInt64) (data : List UInt8)
  /-- A byte is read. -/
  | byte (a : UInt64)
  /-- A word is read. -/
  | word (a : UInt64)
  /-- A number of bytes is read from an address on. -/
  | read (start len : UInt64)

/-- What comes of an act. -/
inductive Answer where
  | done
  | byte (b : UInt8)
  | word (w : UInt16)
  | bytes (data : List UInt8)
  | refused (e : AddressError)
  | tooLarge (e : ProgramTooLarge)
  deriving DecidableEq

namespace Answer

/-- The answer to someone who reads. -/
def ofRead {α : Type} (value : α → Answer) : Except AddressError α → Answer
  | .ok x => value x
  | .error e => .refused e

/-- Whether the act could not be carried out. -/
def isRefusal : Answer → Bool
  | .refused _ | .tooLarge _ => true
  | _ => false

end Answer

namespace Act

/-- What comes of an act, and the memory afterwards. -/
def perform (m : Memory) : Act → Answer × Memory
  | .load program =>
    match m.load program with
    | .ok m' => (.done, m')
    | .error e => (.tooLarge e, m)
  | .write start data =>
    match m.write start data with
    | .ok m' => (.done, m')
    | .error e => (.refused e, m)
  | .byte a => (.ofRead .byte (m.byte a), m)
  | .word a => (.ofRead .word (m.word a), m)
  | .read start len => (.ofRead .bytes (m.read start len), m)

/-! ## Where an act takes place -/

/-- The first address of an act. -/
def start : Act → Nat
  | .load _ => 0x200
  | .write start _ => start.toNat
  | .byte a => a.toNat
  | .word a => a.toNat
  | .read start _ => start.toNat

/-- The number of bytes that an act is about. -/
def count : Act → Nat
  | .load program => program.length
  | .write _ data => data.length
  | .byte _ => 1
  | .word _ => 2
  | .read _ len => len.toNat

/-- The bytes that an act puts into memory. -/
def data : Act → List UInt8
  | .load program => program
  | .write _ data => data
  | _ => []

/-- An act ends within memory. -/
def Fits (a : Act) : Prop :=
  a.start + a.count ≤ 0x1000

instance (a : Act) : Decidable a.Fits :=
  inferInstanceAs (Decidable (_ ≤ _))

/-- The byte that an act puts at an address, if it puts one there. -/
def puts? (a : Act) (x : Nat) : Option UInt8 :=
  if a.Fits ∧ a.start ≤ x then a.data[x - a.start]? else none

/-- The answer of a table of bytes to an act that fits.  Of a word the high byte
comes first. -/
def reply (held : Nat → UInt8) : Act → Answer
  | .load _ => .done
  | .write _ _ => .done
  | .byte a => .byte (held a.toNat)
  | .word a => .word (UInt16.ofNat (256 * (held a.toNat).toNat + (held (a.toNat + 1)).toNat))
  | .read start len => .bytes ((List.range len.toNat).map fun k => held (start.toNat + k))

/-- The answer to an act that does not fit. -/
def refusal : Act → Answer
  | .load program => .tooLarge ⟨program.length⟩
  | .write start _ => .refused ⟨max start 0x1000⟩
  | .byte a => .refused ⟨a⟩
  | .word a => .refused ⟨max a 0x1000⟩
  | .read start _ => .refused ⟨max start 0x1000⟩

end Act

/-! ## One act -/

section Perform

variable (m : Memory) {a : Act}

theorem load_fits_iff (program : List UInt8) :
    (Act.load program).Fits ↔ ¬ programCapacity < program.length := by
  simp only [Act.Fits, Act.start, Act.count, programCapacity, size, programStart]
  omega

/-- An act that does not fit changes nothing. -/
theorem perform_of_not_fits (h : ¬ a.Fits) : a.perform m = (a.refusal, m) := by
  cases a with
  | load program =>
      have hlarge : programCapacity < program.length := by
        rw [load_fits_iff] at h
        exact not_not.mp h
      simp only [Act.perform, load, if_pos hlarge, Act.refusal]
  | write start data =>
      have hout : ¬ (data.length ≤ size ∧ Memory.Fits start (UInt64.ofNat data.length)) :=
        fun hin => h (write_condition.mp hin)
      simp only [Act.perform, write, if_neg hout, Act.refusal, rangeError]
  | byte a =>
      have hout : ¬ a.toNat < 0x1000 := h
      simp only [Act.perform, byte, dif_neg hout, Answer.ofRead, Act.refusal]
  | word a =>
      have hout : ¬ Memory.Fits a 2 := fun hin => h (fits_iff.mp hin)
      simp only [Act.perform, word, dif_neg hout, Answer.ofRead, Act.refusal, rangeError]
  | read start len =>
      have hout : ¬ Memory.Fits start len := fun hin => h (fits_iff.mp hin)
      simp only [Act.perform, read, dif_neg hout, Answer.ofRead, Act.refusal, rangeError]

/-- An act that fits leaves its bytes where it begins. -/
theorem memory_of_fits (h : a.Fits) :
    (a.perform m).2 = ⟨overlay m.bytes a.start a.data⟩ := by
  cases a with
  | load program =>
      have hsmall := (load_fits_iff program).mp h
      simp only [Act.perform, load, if_neg hsmall]
      rfl
  | write start data =>
      have hin := write_condition.mpr h
      simp only [Act.perform, write, if_pos hin]
      rfl
  | _ => rfl

/-- A stretch of memory is read address by address. -/
theorem stretch_eq_map {held : Nat → UInt8} (hheld : ∀ x (hx : x < 0x1000), m.bytes[x] = held x)
    (start len : Nat) (h : start + len ≤ 0x1000) :
    stretch m.bytes start len h = (List.range len).map fun k => held (start + k) := by
  refine List.ext_getElem (by simp) fun k hk hk' => ?_
  rw [length_stretch] at hk
  rw [getElem_stretch _ _ _ _ _ _ (by omega), List.getElem_map, List.getElem_range]
  exact hheld _ _

/-- An act that fits is answered from what is held at its addresses. -/
theorem answer_of_fits {held : Nat → UInt8} (hheld : ∀ x (hx : x < 0x1000), m.bytes[x] = held x)
    (h : a.Fits) : (a.perform m).1 = a.reply held := by
  cases a with
  | load program =>
      have hsmall := (load_fits_iff program).mp h
      simp only [Act.perform, load, if_neg hsmall, Act.reply]
  | write start data =>
      have hin := write_condition.mpr h
      simp only [Act.perform, write, if_pos hin, Act.reply]
  | byte a =>
      have hin : a.toNat < 0x1000 := h
      simp only [Act.perform, byte, dif_pos hin, Answer.ofRead, Act.reply, hheld]
  | word a =>
      have hin : Memory.Fits a 2 := fits_iff.mpr h
      simp only [Act.perform, word, dif_pos hin, Answer.ofRead, Act.reply, hheld]
      rfl
  | read start len =>
      have hin : Memory.Fits start len := fits_iff.mpr h
      simp only [Act.perform, read, dif_pos hin, Answer.ofRead, Act.reply,
        stretch_eq_map m hheld]

/-- What an act leaves at an address: the byte that it puts there, or else what
was there. -/
theorem getElem_perform (a : Act) {x : Nat} (hx : x < 0x1000) :
    (a.perform m).2.bytes[x] = (a.puts? x).getD m.bytes[x] := by
  unfold Act.puts?
  by_cases h : a.Fits
  · simp only [memory_of_fits m h, getElem_overlay, h, true_and]
    by_cases hstart : a.start ≤ x
    · rw [if_pos hstart, if_pos hstart]
    · rw [if_neg hstart, if_neg hstart, Option.getD_none]
  · simp only [perform_of_not_fits m h, h, false_and, ↓reduceIte, Option.getD_none]

theorem isRefusal_iff (a : Act) : (a.perform m).1.isRefusal = true ↔ ¬ a.Fits := by
  constructor
  · intro hrefusal h
    have hheld : ∀ x (hx : x < 0x1000), m.bytes[x] = m.bytes[x]?.getD 0 := by
      intro x hx
      rw [Vector.getElem?_eq_getElem hx, Option.getD_some]
    rw [answer_of_fits m hheld h] at hrefusal
    cases a <;> cases hrefusal
  · intro h
    rw [perform_of_not_fits m h]
    cases a <;> rfl

/-- What is said of a range that does not fit is the first of its addresses that
lies outside. -/
theorem isLeast_of_refused {e : AddressError} (he : (a.perform m).1 = .refused e)
    (hcount : 0 < a.count) :
    IsLeast {x | 0x1000 ≤ x ∧ a.start ≤ x ∧ x < a.start + a.count} e.address.toNat := by
  have hout : ¬ a.Fits := by
    rw [← isRefusal_iff m, he]
    rfl
  have hend : 0x1000 < a.start + a.count := Nat.lt_of_not_le hout
  have hfirst : e.address.toNat = max a.start 0x1000 := by
    have hmax : ∀ start : UInt64, (max start 0x1000).toNat = max start.toNat 0x1000 := by
      intro start
      rw [UInt64.toNat_max]
      rfl
    rw [perform_of_not_fits m hout] at he
    cases a with
    | load program => cases he
    | byte a =>
        obtain rfl := Answer.refused.inj he
        have hpast : 0x1000 ≤ a.toNat := Nat.le_of_not_lt hout
        exact (Nat.max_eq_left hpast).symm
    | _ =>
        obtain rfl := Answer.refused.inj he
        exact hmax _
  rw [hfirst]
  constructor
  · exact ⟨Nat.le_max_right _ _, Nat.le_max_left _ _, by omega⟩
  · rintro x ⟨hlow, hstart, -⟩
    exact Nat.max_le.mpr ⟨hstart, hlow⟩

end Perform

/-! ## Histories -/

/-- A new memory after several acts, in their order. -/
def after (acts : List Act) : Memory :=
  acts.foldl (fun m a => (a.perform m).2) initial

/-- The byte of a new memory: a row of a glyph, or zero. -/
def background (x : Nat) : UInt8 :=
  if h : 0x1B0 ≤ x ∧ x < 0x200 then
    (Font.glyph ⟨(x - 0x1B0) / 5, by omega⟩).getD ((x - 0x1B0) % 5) 0
  else 0

/-- The byte that was put at an address last. -/
def latest (acts : List Act) (x : Nat) : UInt8 :=
  (acts.reverse.findSome? fun a => a.puts? x).getD (background x)

theorem after_concat (acts : List Act) (a : Act) :
    after (acts ++ [a]) = (a.perform (after acts)).2 := by
  simp only [after, List.foldl_append, List.foldl_cons, List.foldl_nil]

theorem latest_concat (acts : List Act) (a : Act) (x : Nat) :
    latest (acts ++ [a]) x = (a.puts? x).getD (latest acts x) := by
  simp only [latest, List.reverse_concat, List.findSome?_cons]
  cases a.puts? x <;> rfl

/-- Later acts that put nothing at an address leave the byte there. -/
theorem latest_append_of_puts_none (acts : List Act) {later : List Act} {x : Nat}
    (h : ∀ a ∈ later, a.puts? x = none) : latest (acts ++ later) x = latest acts x := by
  have hnone : (later.reverse.findSome? fun a => a.puts? x) = none :=
    List.findSome?_eq_none_iff.mpr fun a ha => h a (List.mem_reverse.mp ha)
  simp only [latest, List.reverse_append, List.findSome?_append, hnone, Option.none_or]

/-- The rows of the glyphs, each at its address. -/
theorem getElem_initial {x : Nat} (hx : x < 0x1000) : initial.bytes[x] = background x := by
  have hzero : (Vector.replicate 0x1000 (0 : UInt8))[x] = 0 := Vector.getElem_replicate hx
  unfold background
  by_cases h : 0x1B0 ≤ x ∧ x < 0x200
  · -- The row lies in the image as far from its beginning as in memory from the first glyph.
    have himage := Font.getElem?_image ⟨(x - 0x1B0) / 5, by omega⟩
      ⟨(x - 0x1B0) % 5, Nat.mod_lt _ (by decide)⟩
    have hplace : Font.height * ((x - 0x1B0) / 5) + (x - 0x1B0) % 5 = x - Font.start :=
      Nat.div_add_mod (x - 0x1B0) 5
    simp only [hplace] at himage
    rw [dif_pos h, List.getD_eq_getElem?_getD, ← himage, ← hzero]
    exact (getElem_overlay _ _ _ _ hx).trans (if_pos h.1)
  · rw [dif_neg h, ← hzero]
    apply getElem_overlay_of_outside
    rw [Font.length_image]
    simp only [Font.start, Font.limit, Font.height]
    omega

/-- Memory holds at each address what was put there last. -/
theorem getElem_after (acts : List Act) {x : Nat} (hx : x < 0x1000) :
    (after acts).bytes[x] = latest acts x := by
  induction acts using List.reverseRecOn with
  | nil => exact getElem_initial hx
  | append_singleton acts a ih => simp only [after_concat, getElem_perform, ih, latest_concat]

/-- A program that is loaded puts its bytes above the reserved area. -/
theorem puts_load {program : List UInt8} (h : program.length ≤ 3584) {k : Nat} :
    (Act.load program).puts? (0x200 + k) = program[k]? := by
  have hfits : (Act.load program).Fits := by
    simp only [Act.Fits, Act.start, Act.count]
    omega
  have hplace : 0x200 + k - (Act.load program).start = k := Nat.add_sub_cancel_left 0x200 k
  rw [Act.puts?, if_pos ⟨hfits, Nat.le_add_right _ _⟩, hplace, Act.data]

/-- **Memory holds what was written last.**  In every history of a new memory, an
act on so many bytes is refused if and only if it ends behind the last byte, in
exact arithmetic, and a program if and only if it has more than 3584 bytes.  An act
that is refused, or only reads, changes nothing.  An act that reads is answered by
the bytes that were put at its addresses last, be it by a program or by other
bytes, and by the glyphs and zeros of a new memory where nothing was put.

What is said of a range that is not empty is the first address in it that is
outside memory.  A program leaves what lies behind its end, also the rest of a
longer program that was loaded before. -/
theorem memory_holds_what_was_put (acts : List Act) :
    (∀ a : Act, ((a.perform (after acts)).1.isRefusal = true ↔ 0x1000 < a.start + a.count) ∧
      ((a.perform (after acts)).1.isRefusal = true → (a.perform (after acts)).2 = after acts) ∧
      (a.data = [] → (a.perform (after acts)).2 = after acts)) ∧
    (∀ program : List UInt8,
      ((Act.load program).perform (after acts)).1.isRefusal = true ↔ 3584 < program.length) ∧
    (∀ a : Act, (a.perform (after acts)).1.isRefusal = false →
      (a.perform (after acts)).1 = a.reply (latest acts)) ∧
    (∀ (a : Act) (e : AddressError), (a.perform (after acts)).1 = .refused e → 0 < a.count →
      IsLeast {x | 0x1000 ≤ x ∧ a.start ≤ x ∧ x < a.start + a.count} e.address.toNat) ∧
    (∀ (p q : List UInt8) (between : List Act) (k : Nat) (b : UInt8), p.length ≤ 3584 →
      p[k]? = some b → q.length ≤ k → (∀ a ∈ between, a.puts? (0x200 + k) = none) →
      (after (acts ++ [.load p] ++ between ++ [.load q])).byte (UInt64.ofNat (0x200 + k)) =
        .ok b) := by
  have hrefused : ∀ a : Act, (a.perform (after acts)).1.isRefusal = true ↔
      0x1000 < a.start + a.count :=
    fun a => (isRefusal_iff (after acts) a).trans Nat.not_le
  refine ⟨?_, ?_, ?_, fun a e => isLeast_of_refused (after acts), ?_⟩
  · intro a
    refine ⟨hrefused a, ?_, ?_⟩
    · intro hno
      rw [perform_of_not_fits _ ((isRefusal_iff (after acts) a).mp hno)]
    · intro hdata
      by_cases h : a.Fits
      · rw [memory_of_fits _ h, hdata]
        rfl
      · rw [perform_of_not_fits _ h]
  · intro program
    rw [hrefused]
    simp only [Act.start, Act.count]
    omega
  · intro a hyes
    have h : a.Fits := by
      by_contra hout
      rw [(isRefusal_iff (after acts) a).mpr hout] at hyes
      cases hyes
    exact answer_of_fits (after acts) (fun x hx => getElem_after acts hx) h
  · intro p q between k b hp hk hq hbetween
    have hlt : k < p.length := (List.getElem?_eq_some_iff.mp hk).1
    have hx : 0x200 + k < 0x1000 := by omega
    have haddress : (UInt64.ofNat (0x200 + k)).toNat = 0x200 + k := by
      rw [UInt64.toNat_ofNat']
      omega
    have hheld : latest (acts ++ [.load p] ++ between ++ [.load q]) (0x200 + k) = b := by
      rw [latest_concat, puts_load (by omega), List.getElem?_eq_none hq, Option.getD_none,
        latest_append_of_puts_none _ hbetween, latest_concat, puts_load hp, hk, Option.getD_some]
    simp only [byte, haddress, hx, ↓reduceDIte, getElem_after, hheld]

/-- A program, a write over it, and one whose range comes back to the lowest
addresses if it is added up in 64 bits. -/
def scribbled : List Act :=
  [.load [1, 2, 3, 4, 5], .write 0x201 [9, 8], .write 0xFFFFFFFFFFFFFFFF [7, 7], .word 0xFFF]

/-- `memory_holds_what_was_put` for a stretch that a glyph, a shorter program, a write
and the rest of a longer program share, and for ranges that do not fit. -/
theorem memory_holds_what_was_put_scribbled :
    ((Act.read 0x1FF 6).perform (after (scribbled ++ [.load [6]]))).1 =
        .bytes [0x80, 6, 9, 8, 4, 5] ∧
      ((Act.word 0x201).perform (after (scribbled ++ [.load [6]]))).1 = .word 0x0908 ∧
      ((Act.write 0xFFFFFFFFFFFFFFFF [7, 7]).perform (after scribbled)).2 = after scribbled ∧
      IsLeast {x | 0x1000 ≤ x ∧ 0xFFF ≤ x ∧ x < 0xFFF + 2} 0x1000 ∧
      (after (scribbled ++ [.load [6, 6, 6]] ++ [.word 0xFFF] ++ [.load [5]])).byte 0x202 =
        .ok 6 := by
  obtain ⟨-, -, hreply, -, -⟩ := memory_holds_what_was_put (scribbled ++ [.load [6]])
  obtain ⟨hrange, -, -, hleast, htail⟩ := memory_holds_what_was_put scribbled
  refine ⟨?_, ?_, ?_, ?_, ?_⟩
  · exact hreply (.read 0x1FF 6) rfl
  · exact hreply (.word 0x201) rfl
  · exact (hrange (.write 0xFFFFFFFFFFFFFFFF [7, 7])).2.1
      ((hrange (.write 0xFFFFFFFFFFFFFFFF [7, 7])).1.mpr (by decide))
  · exact hleast (.word 0xFFF) ⟨0x1000⟩ rfl (by decide)
  · exact htail [6, 6, 6] [5] [.word 0xFFF] 2 6 (by decide) rfl (by decide) (by decide)

end Chip8.Memory
