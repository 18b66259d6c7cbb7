import Chip8.Proofs.Encoding
import Chip8.Proofs.Stores
import Mathlib.Data.List.Induction

/-!
# Addresses stay in bounds

A program may rewrite itself, so nothing is known of the words that a processor
will find in its memory.  But a word has room for a twelve-bit address only, and
a word is fetched only where two bytes of memory are left.  From these two facts
come all bounds: the program counter stays below `0x10FF`, which it reaches by
the jump with an offset, and what calls put on the stack lies behind a word of
memory.  The step is `inBounds_execute`, and the induction on the run is
`inBounds_performAll`.

Within these bounds the arithmetic of the program counter is that of integers,
and so is all arithmetic of `I` but that of the instruction which adds a register
to it.  That one does wrap around, in a program of four words (`climber`).
-/

set_option autoImplicit false

namespace Chip8

/-! ## Addresses in words -/

namespace Instruction

/-- The address that an instruction holds, if it holds one. -/
def address? : Instruction → Option UInt16
  | .jump a => some a
  | .call a => some a
  | .setIndex a => some a
  | .jumpOffset a => some a
  | _ => none

theorem InRange.address_lt {i : Instruction} (h : i.InRange) {a : UInt16}
    (ha : i.address? = some a) : a.toNat < Memory.size := by
  cases i with
  | jump b | call b | setIndex b | jumpOffset b =>
      obtain rfl := Option.some.inj ha
      exact h
  | _ => cases ha

/-- A word has no room for an address outside memory. -/
theorem address_of_decode {w : UInt16} {i : Instruction} {a : UInt16} (h : decode? w = some i)
    (ha : i.address? = some a) : a.toNat < Memory.size :=
  (encodes_of_decode h).1.address_lt ha

end Instruction

/-! ## Bounds -/

/-- The highest address that the program counter comes to: the highest address
in a word, and the highest offset. -/
abbrev Cpu.highestPc : Nat := 0xFFF + 0xFF

/-- The address is right behind a word of memory. -/
def BehindWord (a : UInt16) : Prop :=
  2 ≤ a.toNat ∧ a.toNat ≤ Memory.size

/-- The addresses that a runner keeps are in bounds. -/
structure Runner.InBounds (r : Runner) : Prop where
  pc_le : r.cpu.pc.toNat ≤ Cpu.highestPc
  waiting : r.isWaiting = true → BehindWord r.cpu.pc
  depth_le : r.cpu.stack.length ≤ Cpu.stackDepth
  saved : ∀ a ∈ r.cpu.stack, BehindWord a

namespace Cpu

theorem behindWord_advance {c : Cpu} {w : UInt16} (h : c.fetch = .ok w) :
    BehindWord c.advance.pc := by
  have hexact : c.advance.pc.toNat = c.pc.toNat + 2 := toNat_pc_advance h
  have hin := pc_of_fetch h
  refine ⟨?_, ?_⟩
  · omega
  · omega

end Cpu

theorem BehindWord.le_highestPc {a : UInt16} (h : BehindWord a) : a.toNat ≤ Cpu.highestPc :=
  Nat.le_trans h.2 (by decide)

/-- A runner that executed nothing keeps its bounds with its stack. -/
theorem Runner.InBounds.of_idle {r r' : Runner} (h : r.InBounds) (hwaiting : r'.isWaiting = false)
    (hpc : r'.cpu.pc.toNat ≤ Cpu.highestPc) (hstack : r'.cpu.stack = r.cpu.stack) :
    r'.InBounds where
  pc_le := hpc
  waiting := by
    rw [hwaiting]
    intro hno
    cases hno
  depth_le := by
    rw [hstack]
    exact h.depth_le
  saved := by
    rw [hstack]
    exact h.saved

/-- What a runner is about to execute is past a word of memory, and holds no
address that a word has no room for. -/
theorem Runner.InBounds.poised {r : Runner} (h : r.InBounds) {i : Instruction} {c : Cpu}
    (hpoised : r.poised? = some (i, c)) :
    BehindWord c.pc ∧ c.stack = r.cpu.stack ∧
      ∀ a, i.address? = some a → a.toNat < Memory.size := by
  unfold Runner.poised? at hpoised
  cases hr : r.phase with
  | stepping =>
      cases hcurrent : r.cpu.current with
      | error f => simp [hr, hcurrent, Except.toOption] at hpoised
      | ok j =>
          simp only [hr, hcurrent, Except.toOption, Option.map_some, Option.some.injEq,
            Prod.mk.injEq] at hpoised
          obtain ⟨rfl, rfl⟩ := hpoised
          obtain ⟨w, hfetch, hword⟩ := Cpu.fetch_of_current hcurrent
          refine ⟨Cpu.behindWord_advance hfetch, rfl, ?_⟩
          intro a ha
          exact Instruction.address_of_decode (Instruction.ofWord_eq_ok_iff.mp hword) ha
  | waiting x =>
      simp only [hr, Option.some.injEq, Prod.mk.injEq] at hpoised
      obtain ⟨rfl, rfl⟩ := hpoised
      refine ⟨h.waiting (by simp only [Runner.isWaiting, hr]), rfl, ?_⟩
      intro a ha
      cases ha
  | checking => simp [hr] at hpoised
  | ended f => simp [hr] at hpoised

/-! ## One instruction -/

section Execute

variable {i : Instruction} {c : Cpu}

/-- Sixteen bits suffice for where the program counter goes. -/
theorem pcAfter_bounds (hpc : BehindWord c.pc) (hsaved : ∀ a ∈ c.stack, BehindWord a)
    (haddress : ∀ a, i.address? = some a → a.toNat < Memory.size) (d : Devices) :
    0 ≤ i.pcAfter c d ∧ i.pcAfter c d ≤ Cpu.highestPc := by
  have hlow : 2 ≤ c.pc.toNat := hpc.1
  have hhigh : c.pc.toNat ≤ 0x1000 := hpc.2
  have hbound : (Cpu.highestPc : Int) = 0x10FE := rfl
  rw [hbound]
  cases i with
  | ret =>
      simp only [Instruction.pcAfter]
      cases hstack : c.stack with
      | nil =>
          simp only [List.head?_nil, Option.getD_none]
          omega
      | cons a rest =>
          have htop : a.toNat ≤ 0x1000 := (hsaved a (by simp [hstack])).2
          simp only [List.head?_cons, Option.getD_some]
          omega
  | jump a =>
      have ha : a.toNat < 0x1000 := haddress a rfl
      simp only [Instruction.pcAfter]
      omega
  | call a =>
      have ha : a.toNat < 0x1000 := haddress a rfl
      simp only [Instruction.pcAfter]
      split <;> omega
  | jumpOffset a =>
      have ha : a.toNat < 0x1000 := haddress a rfl
      have hoffset := (c.reg .offset).toNat_lt
      simp only [Instruction.pcAfter]
      omega
  | waitKey x =>
      simp only [Instruction.pcAfter]
      split <;> omega
  | _ =>
      simp only [Instruction.pcAfter]
      split <;> omega

/-- Only an addition to `I` can wrap around. -/
theorem indexAfter_bounds (o : Options) (h : ∀ x, i ≠ .addIndex x) :
    0 ≤ i.indexAfter o c ∧ i.indexAfter o c < 0x10000 := by
  have hindex := c.index.toNat_lt
  have htransfer : ∀ count, 0 ≤ c.indexAfterTransfer o count ∧
      c.indexAfterTransfer o count < 0x10000 := by
    intro count
    unfold Cpu.indexAfterTransfer
    split
    · rename_i hin
      have hfits : c.index.toNat + count ≤ 0x1000 := hin.2
      omega
    · omega
  cases i with
  | setIndex a =>
      have ha := a.toNat_lt
      simp only [Instruction.indexAfter]
      omega
  | addIndex x => exact absurd rfl (h x)
  | glyph x =>
      simp only [Instruction.indexAfter, Font.start, Font.limit, Font.height]
      omega
  | storeRegisters x => exact htransfer _
  | loadRegisters x => exact htransfer _
  | _ =>
      simp only [Instruction.indexAfter]
      omega

variable (o : Options) (byte : UInt8) (d : Devices)

theorem pc_execute_exact (hpc : BehindWord c.pc) (hsaved : ∀ a ∈ c.stack, BehindWord a)
    (haddress : ∀ a, i.address? = some a → a.toNat < Memory.size) :
    ((execute o byte i c d).cpu.pc.toNat : Int) = i.pcAfter c d := by
  obtain ⟨hlow, hhigh⟩ := pcAfter_bounds hpc hsaved haddress d
  rw [execute_pc]
  refine Int.emod_eq_of_lt hlow (Int.lt_of_le_of_lt hhigh ?_)
  decide

theorem index_execute_exact (h : ∀ x, i ≠ .addIndex x) :
    ((execute o byte i c d).cpu.index.toNat : Int) = i.indexAfter o c := by
  obtain ⟨hlow, hhigh⟩ := indexAfter_bounds (c := c) o h
  rw [execute_index]
  exact Int.emod_eq_of_lt hlow hhigh

theorem length_stackAfter (h : c.stack.length ≤ Cpu.stackDepth) :
    (i.stackAfter c).length ≤ Cpu.stackDepth := by
  cases i with
  | ret =>
      simp only [Instruction.stackAfter, List.length_tail]
      omega
  | call a =>
      simp only [Instruction.stackAfter]
      split
      · exact h
      · rw [List.length_cons]
        omega
  | _ => exact h

theorem mem_stackAfter {a : UInt16} (h : a ∈ i.stackAfter c) : a = c.pc ∨ a ∈ c.stack := by
  cases i with
  | ret => exact Or.inr (List.mem_of_mem_tail h)
  | call target =>
      simp only [Instruction.stackAfter] at h
      split at h
      · exact Or.inr h
      · exact List.mem_cons.mp h
  | _ => exact Or.inr h

/-- An instruction of a program leaves its processor in bounds. -/
theorem inBounds_execute (hpc : BehindWord c.pc) (hdepth : c.stack.length ≤ Cpu.stackDepth)
    (hsaved : ∀ a ∈ c.stack, BehindWord a)
    (haddress : ∀ a, i.address? = some a → a.toNat < Memory.size) :
    (Runner.ofEffect (execute o byte i c d)).InBounds where
  pc_le := by
    have hexact := pc_execute_exact o byte d hpc hsaved haddress
    have hhigh := (pcAfter_bounds hpc hsaved haddress d).2
    rw [← hexact] at hhigh
    exact Int.ofNat_le.mp hhigh
  waiting := by
    intro hwaiting
    -- A processor that is kept waiting is where the instruction found it.
    cases hout : (execute o byte i c d).outcome with
    | done => simp [Runner.ofEffect, hout, Phase.after, Runner.isWaiting] at hwaiting
    | fault f => simp [Runner.ofEffect, hout, Phase.after, Runner.isWaiting] at hwaiting
    | blocked x =>
        obtain ⟨-, -, heffect⟩ := execute_of_blocked hout
        rw [heffect]
        exact hpc
  depth_le := by
    have hlength := length_stackAfter (i := i) hdepth
    rwa [← execute_stack o byte i c d] at hlength
  saved := by
    intro a ha
    have hstack : a ∈ i.stackAfter c := by rwa [← execute_stack o byte i c d]
    rcases mem_stackAfter hstack with rfl | hold
    · exact hpc
    · exact hsaved a hold

end Execute

/-! ## Runs -/

namespace Ensemble

variable {ι ε : Type}

theorem poised_of_executes {s : Ensemble ι} {a : Act ι ε} {j : ι} {byte : UInt8}
    {i : Instruction} {c : Cpu} (h : s.executes? a = some (j, byte, i, c))
    (himposed : a.isImposed = false) : (s.runners j).poised? = some (i, c) := by
  cases a with
  | advance k b =>
      obtain ⟨p, hpoised, hp⟩ := Option.map_eq_some_iff.mp h
      simp only [Prod.mk.injEq] at hp
      obtain ⟨rfl, -, rfl⟩ := hp
      exact hpoised
  | impose k b i' => cases himposed
  | demand k => cases h
  | event e => cases h

variable [DecidableEq ι] (o : ι → Options) {s : Ensemble ι}

theorem inBounds_perform {a : Act ι ε} (h : ∀ j, (s.runners j).InBounds)
    (himposed : a.isImposed = false) (j : ι) : ((s.perform o a).runners j).InBounds := by
  have hj := h j
  cases hdeed : s.deed? o j a with
  | none =>
      rcases runner_perform_of_no_deed o hdeed with hsame | ⟨hwaiting, hcpu | ⟨⟨w, hfetch⟩, hcpu⟩⟩
      · rwa [hsame]
      · refine hj.of_idle hwaiting ?_ (congrArg Cpu.stack hcpu)
        rw [hcpu]
        exact hj.pc_le
      · refine hj.of_idle hwaiting ?_ ((congrArg Cpu.stack hcpu).trans rfl)
        rw [hcpu]
        exact (Cpu.behindWord_advance hfetch).le_highestPc
  | some deed =>
      obtain ⟨byte, hexec, -⟩ := executes_of_deed o hdeed
      obtain ⟨hpc, hstack, haddress⟩ := hj.poised (poised_of_executes hexec himposed)
      rw [runner_perform_of_executes o hexec]
      apply inBounds_execute
      · exact hpc
      · rw [hstack]
        exact hj.depth_le
      · rw [hstack]
        exact hj.saved
      · exact haddress

theorem inBounds_performAll {acts : List (Act ι ε)} (h : ∀ j, (s.runners j).InBounds)
    (himposed : ∀ a ∈ acts, a.isImposed = false) (j : ι) :
    ((s.performAll o acts).runners j).InBounds := by
  induction acts generalizing s with
  | nil => exact h j
  | cons a acts ih =>
      rw [List.forall_mem_cons] at himposed
      exact ih (inBounds_perform o h himposed.1) himposed.2

/-- A loaded program starts at a fixed address, with nothing on the stack. -/
theorem inBounds_start {cpu : Cpu} {program : List UInt8} {log : List Notice}
    (h : Cpu.initial.load program = .ok (cpu, log)) : (Runner.start cpu).InBounds := by
  unfold Cpu.load at h
  split at h
  · rename_i memory hmemory
    simp only [Except.ok.injEq, Prod.mk.injEq] at h
    obtain ⟨rfl, -⟩ := h
    refine ⟨?_, ?_, ?_, ?_⟩
    · show (0x200 : UInt16).toNat ≤ Cpu.highestPc
      decide
    · intro hwaiting
      cases hwaiting
    · exact Nat.zero_le _
    · intro a ha
      cases ha
  · cases h

/-- An ensemble comes to this state from programs that were loaded into new
processors, with no instruction from anywhere else. -/
def Reached (ε : Type) (o : ι → Options) (s : Ensemble ι) : Prop :=
  ∃ (program : ι → List UInt8) (cpu : ι → Cpu) (log : ι → List Notice) (d : Devices)
    (acts : List (Act ι ε)),
    (∀ j, Cpu.initial.load (program j) = .ok (cpu j, log j)) ∧
      (∀ a ∈ acts, a.isImposed = false) ∧ s = (start cpu d).performAll o acts

theorem reached_performAll (o : ι → Options) {program : ι → List UInt8} {cpu : ι → Cpu}
    {log : ι → List Notice} (d : Devices) {acts : List (Act ι ε)}
    (hload : ∀ j, Cpu.initial.load (program j) = .ok (cpu j, log j))
    (himposed : ∀ a ∈ acts, a.isImposed = false) :
    Reached ε o ((start cpu d).performAll o acts) :=
  ⟨program, cpu, log, d, acts, hload, himposed, rfl⟩

theorem inBounds_of_reached {o : ι → Options} (h : Reached ε o s) (j : ι) :
    (s.runners j).InBounds := by
  obtain ⟨program, cpu, log, d, acts, hload, himposed, rfl⟩ := h
  exact inBounds_performAll o (fun k => inBounds_start (hload k)) himposed j

/-! ## A program that wraps around -/

section Climber

variable (op : Unit → Options)

theorem perform_look {c : Cpu} {d : Devices} (hdown : d.down = false) :
    (start (fun _ => c) d).perform op (.advance () 0 : Act Unit ε) =
      ⟨fun _ => ⟨c, .stepping⟩, d⟩ := by
  simp [perform, start, Runner.start, Runner.advance, setRunner, hdown]

/-- One processor that takes two actions executes an instruction. -/
theorem performAll_pair {c c' : Cpu} {d : Devices} {i : Instruction} (hdown : d.down = false)
    (hcurrent : c.current = .ok i) (hexec : execute (op ()) 0 i c.advance d = ⟨.done, c', d⟩) :
    (start (fun _ => c) d).performAll op (List.replicate 2 (.advance () 0 : Act Unit ε)) =
      start (fun _ => c') d := by
  have hexecutes : (⟨fun _ => ⟨c, .stepping⟩, d⟩ : Ensemble Unit).executes?
      (.advance () 0 : Act Unit ε) = some ((), 0, i, c.advance) :=
    executes_of_current 0 rfl hcurrent
  have hstep : (⟨fun _ => ⟨c, .stepping⟩, d⟩ : Ensemble Unit).perform op
      (.advance () 0 : Act Unit ε) = start (fun _ => c') d := by
    rw [perform_of_executes op hexecutes]
    simp [hexec, start, Runner.start, setRunner, Runner.ofEffect, Phase.after]
  rw [List.replicate_succ, performAll_cons, perform_look op hdown, List.replicate_one,
    performAll_cons, hstep]
  rfl

theorem deeds_pair {c : Cpu} {d : Devices} {i : Instruction} (hdown : d.down = false)
    (hcurrent : c.current = .ok i) :
    deeds op () (start (fun _ => c) d) (List.replicate 2 (.advance () 0 : Act Unit ε)) =
      [⟨i, c.advance, (execute (op ()) 0 i c.advance d).outcome⟩] := by
  have hexecutes : (⟨fun _ => ⟨c, .stepping⟩, d⟩ : Ensemble Unit).executes?
      (.advance () 0 : Act Unit ε) = some ((), 0, i, c.advance) :=
    executes_of_current 0 rfl hcurrent
  have hlook : (start (fun _ => c) d).deed? op () (.advance () 0 : Act Unit ε) = none := rfl
  rw [List.replicate_succ, List.replicate_one, deeds, deeds, deeds, hlook, perform_look op hdown,
    deed_of_executes op hexecutes]
  rfl

/-- What a processor would execute at an address. -/
def Holds (c : Cpu) (a : UInt16) (i : Instruction) : Prop :=
  ({ c with pc := a } : Cpu).current = .ok i

theorem holds_of_loaded {c : Cpu} {v : Vector UInt8 0x1000} {program : List UInt8}
    {a : UInt16} {i : Instruction} (k : Nat)
    (hmemory : c.memory = ⟨overlay v Memory.programStart program⟩)
    (ha : a.toNat = Memory.programStart + k) (hk : k + 1 < program.length)
    (hfits : program.length ≤ Memory.programCapacity)
    (hword : Instruction.ofWord (Word.ofBytes program[k] program[k + 1]) = .ok i) :
    Holds c a i := by
  have hin : Memory.programStart + k + 1 < 0x1000 := by
    simp only [Memory.programCapacity, Memory.size, Memory.programStart] at hfits ⊢
    omega
  have hfetch : ({ c with pc := a } : Cpu).fetch =
      .ok (Word.ofBytes program[k] program[k + 1]) := by
    apply Cpu.fetch_of_bytes ha hin
    · simp only [hmemory]
      exact getElem_overlay_of_inside (Nat.lt_of_succ_lt hk) (Nat.lt_of_succ_lt hin)
    · simp only [hmemory]
      exact getElem_overlay_of_inside hk hin
  simp only [Holds, Cpu.current, hfetch, hword]

/-- An addition and the jump back to it, taken `n` times. -/
theorem performAll_climb {c : Cpu} {d : Devices} (hdown : d.down = false)
    (hadd : Holds c 0x204 (.addIndex .offset)) (hjump : Holds c 0x206 (.jump 0x204)) (n : Nat) :
    (start (fun _ => { c with pc := 0x204 }) d).performAll op
        (List.replicate (4 * n) (.advance () 0 : Act Unit ε)) =
      start (fun _ => { c with
        pc := 0x204, index := c.index + UInt16.ofNat ((c.reg .offset).toNat * n) }) d := by
  induction n generalizing c with
  | zero => simp [performAll]
  | succ n ih =>
      have hsplit : List.replicate (4 * (n + 1)) (.advance () 0 : Act Unit ε) =
          List.replicate 2 (.advance () 0) ++ List.replicate 2 (.advance () 0) ++
            List.replicate (4 * n) (.advance () 0) := by
        rw [List.replicate_append_replicate, List.replicate_append_replicate]
        congr 1
        omega
      have hturn : (start (fun _ => { c with pc := 0x204 }) d).performAll op
          (List.replicate 2 (.advance () 0 : Act Unit ε)) =
          start (fun _ => { c with pc := 0x206, index := c.index + (c.reg .offset).toUInt16 }) d :=
        performAll_pair op hdown hadd rfl
      have hback : (start (fun _ =>
          { c with pc := 0x206, index := c.index + (c.reg .offset).toUInt16 }) d).performAll op
          (List.replicate 2 (.advance () 0 : Act Unit ε)) =
          start (fun _ => { c with pc := 0x204, index := c.index + (c.reg .offset).toUInt16 }) d :=
        performAll_pair op hdown hjump rfl
      have hrest := ih (c := { c with index := c.index + (c.reg .offset).toUInt16 }) hadd hjump
      have hsum : c.index + (c.reg .offset).toUInt16 + UInt16.ofNat ((c.reg .offset).toNat * n) =
          c.index + UInt16.ofNat ((c.reg .offset).toNat * (n + 1)) := by
        rw [Nat.mul_succ, Nat.add_comm, UInt16.ofNat_add, ← UInt16.add_assoc]
        congr 2
        simp
      rw [hsplit, performAll_append, performAll_append, hturn, hback, ← hsum]
      exact hrest

/-- `I` is set to the highest address that a word can hold, and from then on
`0xFF` is added to it again and again. -/
def climber : List UInt8 :=
  [0xAF, 0xFF, 0x60, 0xFF, 0xF0, 0x1E, 0x12, 0x04]

/-- Two loads, and additions until the next sum does not fit. -/
def climb : List (Act Unit ε) :=
  List.replicate 2 (.advance () 0) ++ List.replicate 2 (.advance () 0) ++
    List.replicate (4 * 240) (.advance () 0)

theorem isImposed_climb_concat :
    ∀ a ∈ (climb ++ [.advance () 0] : List (Act Unit ε)), a.isImposed = false := by
  intro a ha
  simp only [climb, List.mem_append, List.mem_replicate, List.mem_singleton] at ha
  rcases ha with ((⟨-, rfl⟩ | ⟨-, rfl⟩) | ⟨-, rfl⟩) | rfl <;> rfl

/-- The processor where the next sum does not fit. -/
def atTop (c : Cpu) : Cpu :=
  { c.setReg .offset 0xFF with pc := 0x204, index := 0xFF0F }

theorem indexAfter_atTop (o : Options) (c : Cpu) :
    (Instruction.addIndex .offset).indexAfter o (atTop c).advance = 0x1000E := by
  have hreg : (atTop c).advance.reg .offset = 0xFF := by
    have hread := c.reg_setReg .offset .offset 0xFF
    rwa [if_pos rfl] at hread
  simp only [Instruction.indexAfter, hreg]
  rfl

theorem performAll_climber {c : Cpu} {d : Devices} (hdown : d.down = false) (hpc : c.pc = 0x200)
    (hindex : Holds c 0x200 (.setIndex 0xFFF)) (hset : Holds c 0x202 (.setByte .offset 0xFF))
    (hadd : Holds c 0x204 (.addIndex .offset)) (hjump : Holds c 0x206 (.jump 0x204)) :
    (start (fun _ => c) d).performAll op (climb : List (Act Unit ε)) =
      start (fun _ => atTop c) d := by
  have hstarts : { c with pc := 0x200 } = c := by rw [← hpc]
  have hfirst : (start (fun _ => c) d).performAll op
      (List.replicate 2 (.advance () 0 : Act Unit ε)) =
      start (fun _ => { c with pc := 0x202, index := 0xFFF }) d := by
    rw [Holds, hstarts] at hindex
    apply performAll_pair op hdown hindex
    simp only [execute, Cpu.advance, hpc]
    rfl
  have hsecond : (start (fun _ => { c with pc := 0x202, index := 0xFFF }) d).performAll op
      (List.replicate 2 (.advance () 0 : Act Unit ε)) =
      start (fun _ => { c.setReg .offset 0xFF with pc := 0x204, index := 0xFFF }) d :=
    performAll_pair op hdown hset rfl
  have hturns := performAll_climb (ε := ε) op
    (c := { c.setReg .offset 0xFF with index := 0xFFF }) hdown hadd hjump 240
  have hreg : ({ c.setReg .offset 0xFF with index := 0xFFF } : Cpu).reg .offset = 0xFF := by
    have hread := c.reg_setReg .offset .offset 0xFF
    rwa [if_pos rfl] at hread
  have hsum : (0xFFF : UInt16) + UInt16.ofNat ((0xFF : UInt8).toNat * 240) = 0xFF0F := by decide
  rw [hreg, hsum] at hturns
  rw [climb, performAll_append, performAll_append, hfirst, hsecond]
  exact hturns

theorem load_climber : ∃ c log, Cpu.initial.load climber = .ok (c, log) ∧ c.pc = 0x200 ∧
    Holds c 0x200 (.setIndex 0xFFF) ∧ Holds c 0x202 (.setByte .offset 0xFF) ∧
    Holds c 0x204 (.addIndex .offset) ∧ Holds c 0x206 (.jump 0x204) := by
  refine ⟨_, _, rfl, rfl, ?_, ?_, ?_, ?_⟩
  · exact holds_of_loaded 0 rfl rfl (by decide) (by decide) (by decide)
  · exact holds_of_loaded 2 rfl rfl (by decide) (by decide) (by decide)
  · exact holds_of_loaded 4 rfl rfl (by decide) (by decide) (by decide)
  · exact holds_of_loaded 6 rfl rfl (by decide) (by decide) (by decide)

/-- The program comes to a sum of more than sixteen bits. -/
theorem climber_wraps : ∃ (t : Ensemble Unit) (x : Register) (c : Cpu), Reached ε op t ∧
    (t.runners ()).poised? = some (.addIndex x, c) ∧
      0x10000 ≤ (Instruction.addIndex x).indexAfter (op ()) c := by
  obtain ⟨loaded, told, hload, hpc, hindex, hset, hadd, hjump⟩ := load_climber
  have hcurrent : (atTop loaded).current = .ok (.addIndex .offset) := hadd
  have hclimb : (start (fun _ => loaded) .initial).performAll op
      (climb ++ [.advance () 0] : List (Act Unit ε)) =
      ⟨fun _ => ⟨atTop loaded, .stepping⟩, .initial⟩ := by
    rw [performAll_concat, performAll_climber op rfl hpc hindex hset hadd hjump,
      perform_look op rfl]
  have hreached := reached_performAll op .initial (fun _ => hload)
    (isImposed_climb_concat (ε := ε))
  rw [hclimb] at hreached
  refine ⟨_, .offset, (atTop loaded).advance, hreached, ?_, ?_⟩
  · simp only [Runner.poised?, hcurrent, Except.toOption, Option.map_some]
  · rw [indexAfter_atTop]
    decide

end Climber

/-- **Addresses stay in bounds.**  Programs are loaded into new processors, and
these execute what they find in memory, step by step and in any order with
whatever the surroundings do.  In every state that is reached the program counter
is at most `0x10FE`, and the stack holds at most sixteen addresses, each of them
behind a word of memory.

So neither the fetch of a word nor any instruction makes the program counter
wrap around, and no instruction makes `I` wrap around but the one that adds a
register to it.  That one does, in a run of `climber`. -/
theorem addresses_stay_in_bounds (o : ι → Options) (s : Ensemble ι) (h : Reached ε o s) :
    (∀ j, (s.runners j).cpu.pc.toNat ≤ 0x10FE ∧ (s.runners j).cpu.stack.length ≤ 16 ∧
      ∀ a ∈ (s.runners j).cpu.stack, 2 ≤ a.toNat ∧ a.toNat ≤ 0x1000) ∧
    (∀ j w, (s.runners j).cpu.fetch = .ok w →
      (s.runners j).cpu.advance.pc.toNat = (s.runners j).cpu.pc.toNat + 2) ∧
    (∀ j byte i c, (s.runners j).poised? = some (i, c) →
      ((execute (o j) byte i c s.devices).cpu.pc.toNat : Int) = i.pcAfter c s.devices ∧
        ((∀ x, i ≠ .addIndex x) →
          ((execute (o j) byte i c s.devices).cpu.index.toNat : Int) = i.indexAfter (o j) c)) ∧
    (∀ op : Unit → Options, ∃ (t : Ensemble Unit) (x : Register) (c : Cpu), Reached ε op t ∧
      (t.runners ()).poised? = some (.addIndex x, c) ∧
        0x10000 ≤ (Instruction.addIndex x).indexAfter (op ()) c) := by
  have hbounds := inBounds_of_reached h
  refine ⟨?_, ?_, ?_, climber_wraps⟩
  · intro j
    exact ⟨(hbounds j).pc_le, (hbounds j).depth_le, (hbounds j).saved⟩
  · intro j w hfetch
    exact Cpu.toNat_pc_advance hfetch
  · intro j byte i c hpoised
    obtain ⟨hpc, hstack, haddress⟩ := (hbounds j).poised hpoised
    have hsaved : ∀ a ∈ c.stack, BehindWord a := by
      rw [hstack]
      exact (hbounds j).saved
    exact ⟨pc_execute_exact (o j) byte _ hpc hsaved haddress, index_execute_exact (o j) byte _⟩

/-- A subroutine that waits for a key. -/
def asker : List UInt8 :=
  [0x22, 0x02, 0xF0, 0x0A]

/-- Two processors call the subroutine; one gets its key, and the other gives up
when the run is over. -/
def asking : List (Act Bool Unit) :=
  List.replicate 4 (.advance true 0) ++ .event (.press (.ofByte 0xA)) :: .advance true 0 ::
    List.replicate 4 (.advance false 0) ++ [.event .announce, .event .closeKeys, .event .tickDelay,
      .advance false 0, .advance false 0, .demand true, .advance true 0]

theorem addresses_stay_in_bounds_asker :
    ∃ c log, Cpu.initial.load asker = .ok (c, log) ∧
      ∀ j, (((start (fun _ => c) .initial).performAll (fun _ => .standard) asking).runners
          j).cpu.pc.toNat ≤ 0x10FE ∧
        (((start (fun _ => c) .initial).performAll (fun _ => .standard) asking).runners
          j).cpu.stack.length ≤ 16 ∧
        ∀ a ∈ (((start (fun _ => c) .initial).performAll (fun _ => .standard) asking).runners
          j).cpu.stack, 2 ≤ a.toNat ∧ a.toNat ≤ 0x1000 := by
  have himposed : ∀ a ∈ asking, a.isImposed = false := by decide
  obtain ⟨c, log, hload⟩ : ∃ c log, Cpu.initial.load asker = .ok (c, log) := ⟨_, _, rfl⟩
  have hreached := reached_performAll (fun _ => .standard) .initial (fun _ => hload) himposed
  exact ⟨c, log, hload, (addresses_stay_in_bounds (fun _ => .standard) _ hreached).1⟩

end Ensemble

end Chip8
