import Chip8.Listing
import Chip8.Proofs.Bounds
import Chip8.Proofs.Stores

/-!
# The listing shows what is executed

A listing cuts a file into words, and a processor fetches words from its memory.
The two meet in the layout of memory: the `n`-th word of a program lies at
`0x200 + 2 * n`, and it stays there until one of its bytes is written over
(`byte_performAll`).  As long as it does, a processor that comes to it makes of
it what the listing says (`agrees_performAll`), whatever has happened before.
-/

set_option autoImplicit false

namespace Chip8

/-! ## Lines -/

namespace Listing

/-- The words of a program are its pairs of bytes. -/
theorem getElem?_words : ∀ (p : List UInt8) (n : Nat) (h : 2 * n + 1 < p.length),
    (words p)[n]? = some (Word.ofBytes p[2 * n] p[2 * n + 1])
  | high :: low :: rest, 0, _ => rfl
  | high :: low :: rest, n + 1, h => by
      have hrest : 2 * n + 1 < rest.length := by
        simp only [List.length_cons] at h
        omega
      exact getElem?_words rest n hrest
  | [_], n, h => absurd h (by simp)
  | [], n, h => absurd h (by simp)

/-- The words of a listing lie two bytes apart. -/
theorem getElem?_lines (address : Nat) (ws : List UInt16) (n : Nat) :
    (lines address ws)[n]? = ws[n]?.map (line (address + 2 * n)) := by
  induction ws generalizing address n with
  | nil => rfl
  | cons w ws ih =>
      cases n with
      | zero => rfl
      | succ n =>
          have hnext : address + 2 + 2 * n = address + 2 * (n + 1) := by omega
          rw [lines, List.getElem?_cons_succ, List.getElem?_cons_succ, ih, hnext]

theorem getElem?_ofProgram {p : List UInt8} {n : Nat} (h : 2 * n + 1 < p.length) :
    (ofProgram p)[n]? =
      some (line (Memory.programStart + 2 * n) (Word.ofBytes p[2 * n] p[2 * n + 1])) := by
  rw [ofProgram, getElem?_lines, getElem?_words p n h, Option.map_some]

end Listing

/-! ## Agreement -/

/-- A processor makes of a word what a line of a listing says: the line has the
address of the word, the word and the instruction that the processor executes,
which is also what the processor tells; or the word is no instruction, for the
line as for the processor, and then nothing is told. -/
def Cpu.Agrees (c : Cpu) (address : Nat) (w : UInt16) (line : String) : Prop :=
  (∃ i, c.current = .ok i ∧
    line = Hex.text 3 address ++ "  " ++ Hex.text 4 w.toNat ++ "  " ++ i.mnemonic ∧
    ∀ (o : Options) (byte : UInt8) (dev : Devices),
      (step o byte c dev).effect = execute o byte i { c with pc := c.pc + 2 } dev ∧
        ∃ notice, (step o byte c dev).log = [notice] ∧ notice.level = .trace ∧
          notice.message = Hex.text 3 address ++ ": " ++ i.mnemonic) ∨
  (c.current = .error (.invalidWord ⟨w⟩) ∧
    line = Hex.text 3 address ++ "  " ++ Hex.text 4 w.toNat ++ "  " ++ "??" ∧
    ∀ (o : Options) (byte : UInt8) (dev : Devices),
      (step o byte c dev).effect.outcome = .fault (.invalidWord ⟨w⟩) ∧
        (step o byte c dev).log = [])

theorem Cpu.agrees_of_fetch {c : Cpu} {address : Nat} {w : UInt16} (hpc : c.pc.toNat = address)
    (hfetch : c.fetch = .ok w) : c.Agrees address w (Listing.line address w) := by
  subst hpc
  cases hword : Instruction.ofWord w with
  | ok i =>
      have hcurrent : c.current = .ok i := by simp only [current, hfetch, hword]
      refine Or.inl ⟨i, hcurrent, ?_, ?_⟩
      · simp only [Listing.line, Listing.meaning, hword]
      · intro o byte dev
        rw [step_of_current hcurrent]
        exact ⟨rfl, .executing c.pc i, rfl, rfl, rfl⟩
  | error e =>
      obtain ⟨-, rfl⟩ := Instruction.ofWord_eq_error_iff.mp hword
      refine Or.inr ⟨?_, ?_, ?_⟩
      · simp only [current, hfetch, hword]
      · simp only [Listing.line, Listing.meaning, hword]
      · intro o byte dev
        rw [step_of_invalid_word hfetch hword]
        exact ⟨rfl, rfl⟩

/-- Where a line agrees, there is a word. -/
theorem Cpu.Agrees.current_ne {c : Cpu} {address : Nat} {w : UInt16} {line : String}
    (h : c.Agrees address w line) (e : AddressError) : c.current ≠ .error (.address e) := by
  rcases h with ⟨i, hcurrent, -⟩ | ⟨hcurrent, -⟩ <;> rw [hcurrent] <;> nofun

namespace Ensemble

variable {ι ε : Type} [DecidableEq ι]

/-- What is left of a program agrees with its listing. -/
theorem agrees_performAll {o : ι → Options} {cpu : ι → Cpu} {d : Devices}
    {acts : List (Act ι ε)} {j : ι} {program : List UInt8} {log : List Notice} {n : Nat}
    (hload : Cpu.initial.load program = .ok (cpu j, log)) (hn : 2 * n + 1 < program.length)
    (hquiet : ∀ deed ∈ deeds o j (start cpu d) acts,
      ¬ deed.Writes (Memory.programStart + 2 * n) ∧
        ¬ deed.Writes (Memory.programStart + 2 * n + 1))
    (hpc : (((start cpu d).performAll o acts).runners j).cpu.pc.toNat =
      Memory.programStart + 2 * n) :
    (((start cpu d).performAll o acts).runners j).cpu.Agrees (Memory.programStart + 2 * n)
      (Word.ofBytes program[2 * n] program[2 * n + 1])
      (Listing.line (Memory.programStart + 2 * n)
        (Word.ofBytes program[2 * n] program[2 * n + 1])) := by
  have hfits : program.length ≤ 0x1000 - 0x200 := (Cpu.of_load hload).1
  have hin : Memory.programStart + 2 * n + 1 < 0x1000 := by
    simp only [Memory.programStart]
    omega
  apply Cpu.agrees_of_fetch hpc
  apply Cpu.fetch_of_bytes hpc hin
  · rw [byte_performAll (Nat.lt_of_succ_lt hin) fun deed hdeed => (hquiet deed hdeed).1]
    exact Cpu.byte_of_load hload (Nat.lt_of_succ_lt hn) (Nat.lt_of_succ_lt hin)
  · rw [byte_performAll hin fun deed hdeed => (hquiet deed hdeed).2]
    exact Cpu.byte_of_load hload hn hin

/-- **The listing shows what is executed.**  Every program of at most `3584`
bytes can be loaded into a new processor.  The processor runs among others and
their surroundings, in any order.  While neither byte of the `n`-th word has been
written over, the processor at that word agrees with the `n`-th line of the
listing: it decodes and executes the instruction that the line shows, and tells
the same address and the same text; or the line shows `??`, and the processor
finds the same word and tells nothing.  There always is a word. -/
theorem listing_shows_what_is_executed (program : List UInt8) (hfits : program.length ≤ 3584) :
    ∃ c log, Cpu.initial.load program = .ok (c, log) ∧
      ∀ (o : ι → Options) (cpu : ι → Cpu) (d : Devices) (acts : List (Act ι ε)) (j : ι),
        cpu j = c → ∀ (n : Nat) (hn : 2 * n + 1 < program.length),
        (∀ deed ∈ deeds o j (start cpu d) acts,
          ¬ deed.Writes (0x200 + 2 * n) ∧ ¬ deed.Writes (0x200 + 2 * n + 1)) →
        (((start cpu d).performAll o acts).runners j).cpu.pc.toNat = 0x200 + 2 * n →
        (∃ line, (Listing.ofProgram program)[n]? = some line ∧
          (((start cpu d).performAll o acts).runners j).cpu.Agrees (0x200 + 2 * n)
            (Word.ofBytes program[2 * n] program[2 * n + 1]) line) ∧
        ∀ e, (((start cpu d).performAll o acts).runners j).cpu.current ≠ .error (.address e) := by
  refine ⟨_, _, Cpu.load_of_fits .initial hfits, ?_⟩
  intro o cpu d acts j hcpu n hn hquiet hpc
  have hload := Cpu.load_of_fits .initial hfits
  rw [← hcpu] at hload
  have hagrees := agrees_performAll hload hn hquiet hpc
  exact ⟨⟨_, Listing.getElem?_ofProgram hn, hagrees⟩, hagrees.current_ne⟩

/-- Digits are stored at the bottom of memory, and then there is no instruction. -/
def recorder : List UInt8 :=
  [0xF0, 0x33, 0xFF, 0xFF]

theorem load_recorder : ∃ c log, Cpu.initial.load recorder = .ok (c, log) ∧ c.index = 0 ∧
    c.pc = 0x200 ∧ Holds c 0x200 (.storeDigits .offset) :=
  ⟨_, _, rfl, rfl, rfl, holds_of_loaded 0 rfl rfl (by decide) (by decide) (by decide)⟩

/-- The second line of the listing, and the processor that has come to it. -/
theorem listing_shows_what_is_executed_recorder :
    recorder.length ≤ 3584 ∧ ∃ c log, Cpu.initial.load recorder = .ok (c, log) ∧
      ∃ line, (Listing.ofProgram recorder)[1]? = some line ∧
        (((start (fun _ => c) .initial).performAll (fun _ => .standard)
          (List.replicate 2 (.advance () 0 : Act Unit Unit))).runners ()).cpu.Agrees
            0x202 0xFFFF line := by
  obtain ⟨c, log, hload, hindex, hpc, hfirst⟩ := load_recorder
  obtain ⟨c', log', hload', hshows⟩ :=
    listing_shows_what_is_executed (ι := Unit) (ε := Unit) recorder (by decide)
  rw [hload, Except.ok.injEq, Prod.mk.injEq] at hload'
  obtain ⟨rfl, rfl⟩ := hload'
  have hstarts : { c with pc := 0x200 } = c := by rw [← hpc]
  rw [Holds, hstarts] at hfirst
  have hroom : c.advance.index.toNat + 3 ≤ Memory.size := by
    simp only [Cpu.advance, hindex]
    decide
  have hexec := execute_storeDigits .standard 0 c.advance .initial .offset hroom
  have hlow : ∀ outcome a,
      (⟨.storeDigits .offset, c.advance, outcome⟩ : Deed).Writes a → a < 3 := by
    rintro outcome a ⟨-, -, h⟩
    simpa [Cpu.advance, hindex, Instruction.storeSize] using h
  refine ⟨by decide, c, log, hload, (hshows _ _ _ _ () rfl 1 (by decide) ?_ ?_).1⟩
  · intro deed hdeed
    rw [deeds_pair _ rfl hfirst] at hdeed
    obtain rfl := List.mem_singleton.mp hdeed
    exact ⟨fun h => absurd (hlow _ _ h) (by decide), fun h => absurd (hlow _ _ h) (by decide)⟩
  · rw [performAll_pair _ rfl hfirst hexec]
    simp only [start, Runner.start, Cpu.advance, hpc]
    decide

end Ensemble

end Chip8
