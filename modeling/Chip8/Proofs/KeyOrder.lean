import Chip8.Proofs.Ensemble

/-!
# Keys are taken in the order in which they were pressed

Several processors and their surroundings take keys from one queue, each in its
own way: a wait takes the oldest key of an open queue, a skip takes it if it is
the one asked for, and a key can be taken directly.  `takes` lists what an act
takes, and `takes_append_keys` says that this and what is left are the queue
from before.  Since keys come in at the other end only, what is taken in the
course of all acts, followed by what is left, is what was there and what was
pressed, whatever the order of the acts.
-/

set_option autoImplicit false

namespace Chip8

/-! ## What is taken -/

/-- The keys that an instruction takes. -/
def Instruction.takes (i : Instruction) (c : Cpu) (q : KeyQueue) : List Key :=
  match i with
  | .skipKey x => if (q.popIf (c.reg x)).1 then q.front?.toList else []
  | .waitKey _ =>
    match q.waitPop.1 with
    | .key k => [k]
    | _ => []
  | _ => []

/-- The keys that an event takes. -/
def Event.takes {ε : Type} (e : Event ε) (q : KeyQueue) : List Key :=
  match e with
  | .pop => q.pop.1.toList
  | _ => []

/-- The keys that an event brings. -/
def Event.brings {ε : Type} : Event ε → List Key
  | .press k => [k]
  | _ => []

section Execute

variable (o : Options) (byte : UInt8) (i : Instruction) (c : Cpu) (dev : Devices)

/-- What an instruction takes comes from the front, and the rest stays. -/
theorem takes_append_execute :
    i.takes c dev.keys ++ (execute o byte i c dev).devices.keys.keys = dev.keys.keys := by
  rw [execute_devices]
  cases i with
  | skipKey x =>
      simp only [Instruction.takes, Instruction.devicesAfter]
      rcases KeyQueue.popIf_cases dev.keys (c.reg x) with ⟨k, ks, hkeys, -, h⟩ | ⟨-, h⟩
      · simp [h, KeyQueue.front?, hkeys]
      · simp [h]
  | waitKey x =>
      simp only [Instruction.takes, Instruction.devicesAfter]
      rcases KeyQueue.waitPop_cases dev.keys with
        ⟨-, h⟩ | ⟨-, -, h⟩ | ⟨k, ks, -, hkeys, h⟩
      · simp [h]
      · simp [h]
      · simp [h, hkeys]
  | draw x y rows =>
      simp only [Instruction.takes, Instruction.devicesAfter]
      split <;> rfl
  | _ => rfl

/-- A key that an instruction takes is the oldest one, and the instruction waits
for a key, with the queue open, or asks for just this key. -/
theorem takes_eq_cons {i : Instruction} {c : Cpu} {q : KeyQueue} {k : Key} {ks : List Key}
    (h : i.takes c q = k :: ks) :
    ks = [] ∧ q.front? = some k ∧
      ((∃ x, i = .waitKey x ∧ q.closed = false) ∨ ∃ x, i = .skipKey x ∧ k.code = c.reg x) := by
  cases i with
  | skipKey x =>
      simp only [Instruction.takes] at h
      rcases KeyQueue.popIf_cases q (c.reg x) with ⟨k', ks', hkeys, hcode, hpop⟩ | ⟨-, hpop⟩
      · simp only [hpop, ↓reduceIte, KeyQueue.front?, hkeys, List.head?_cons, Option.toList_some,
          List.cons.injEq] at h
        obtain ⟨rfl, hnil⟩ := h
        exact ⟨hnil.symm, by simp [KeyQueue.front?, hkeys], Or.inr ⟨x, rfl, hcode⟩⟩
      · simp [hpop] at h
  | waitKey x =>
      simp only [Instruction.takes] at h
      rcases KeyQueue.waitPop_cases q with
        ⟨-, hwait⟩ | ⟨-, -, hwait⟩ | ⟨k', ks', hopen, hkeys, hwait⟩
      · simp [hwait] at h
      · simp [hwait] at h
      · simp only [hwait, List.cons.injEq] at h
        obtain ⟨rfl, hnil⟩ := h
        exact ⟨hnil.symm, by simp [KeyQueue.front?, hkeys], Or.inl ⟨x, rfl, hopen⟩⟩
  | _ => cases h

/-- What an event takes and what it leaves are what was there and what it brings. -/
theorem Event.takes_append_apply {ε : Type} (e : Event ε) (d : Devices) :
    e.takes d.keys ++ (e.apply d).keys.keys = d.keys.keys ++ e.brings := by
  cases e with
  | press k => rfl
  | pop =>
      simp only [Event.takes, Event.apply, Event.brings, List.append_nil]
      rcases KeyQueue.pop_cases d.keys with ⟨hkeys, h⟩ | ⟨k, ks, hkeys, h⟩
      · simp [h]
      · simp [h, hkeys]
  | _ => exact (List.append_nil _).symm

end Execute

/-! ## What the takers get -/

section Takers

variable (o : Options) (byte : UInt8) (x : Register) (c : Cpu) (dev : Devices)

/-- A wait on an open queue puts the oldest key into its register. -/
theorem execute_waitKey {k : Key} (hopen : dev.keys.closed = false)
    (hfront : dev.keys.front? = some k) :
    execute o byte (.waitKey x) c dev =
      ⟨.done, c.setReg x k.code,
        { dev with keys := { dev.keys with keys := dev.keys.keys.tail } }⟩ := by
  simp only [execute]
  rcases KeyQueue.waitPop_cases dev.keys with
    ⟨hclosed, -⟩ | ⟨-, hkeys, -⟩ | ⟨k', ks, -, hkeys, h⟩
  · rw [hopen] at hclosed
    cases hclosed
  · simp [KeyQueue.front?, hkeys] at hfront
  · obtain rfl : k' = k := by simpa [KeyQueue.front?, hkeys] using hfront
    rw [h, hkeys, List.tail_cons]

/-- A test for a key skips and takes the key, or does neither. -/
theorem execute_skipKey :
    (dev.keys.front?.map Key.code = some (c.reg x) ∧
      execute o byte (.skipKey x) c dev =
        ⟨.done, c.advance, { dev with keys := { dev.keys with keys := dev.keys.keys.tail } }⟩) ∨
    (dev.keys.front?.map Key.code ≠ some (c.reg x) ∧
      execute o byte (.skipKey x) c dev = ⟨.done, c, dev⟩) := by
  simp only [execute]
  rcases KeyQueue.popIf_cases dev.keys (c.reg x) with ⟨k, ks, hkeys, hcode, h⟩ | ⟨hfront, h⟩
  · left
    rw [h]
    simp [KeyQueue.front?, hkeys, hcode, Cpu.skipIf]
  · right
    rw [h]
    exact ⟨hfront, rfl⟩

/-- The opposite test skips where that one does not, and never takes a key. -/
theorem execute_skipNotKey :
    (dev.keys.front?.map Key.code = some (c.reg x) ∧
      execute o byte (.skipNotKey x) c dev = ⟨.done, c, dev⟩) ∨
    (dev.keys.front?.map Key.code ≠ some (c.reg x) ∧
      execute o byte (.skipNotKey x) c dev = ⟨.done, c.advance, dev⟩) := by
  simp only [execute]
  by_cases hfront : dev.keys.front?.map Key.code = some (c.reg x)
  · exact Or.inl ⟨hfront, by simp [hfront, Cpu.skipIf]⟩
  · exact Or.inr ⟨hfront, by simp [hfront, Cpu.skipIf]⟩

end Takers

/-- A skip moves the program counter. -/
theorem Cpu.pc_advance_ne (c : Cpu) : c.advance.pc ≠ c.pc := by
  intro h
  have hnat := congrArg UInt16.toNat h
  have := c.pc.toNat_lt
  simp only [Cpu.advance, UInt16.toNat_add, show (2 : UInt16).toNat = 2 from rfl] at hnat
  omega

/-! ## All acts together -/

namespace Ensemble

variable {ι ε : Type}

/-- The keys that an act brings. -/
def Act.brings : Act ι ε → List Key
  | .event e => e.brings
  | _ => []

/-- The keys that several acts bring, in their order. -/
def bringsAll (acts : List (Act ι ε)) : List Key :=
  acts.flatMap Act.brings

/-- The keys that an act takes. -/
def takes (s : Ensemble ι) (a : Act ι ε) : List Key :=
  match a, s.executes? a with
  | .event e, _ => e.takes s.devices.keys
  | _, some (_, _, i, c) => i.takes c s.devices.keys
  | _, none => []

section Acts

variable (s : Ensemble ι)

theorem takes_of_executes {a : Act ι ε} {j : ι} {byte : UInt8} {i : Instruction} {c : Cpu}
    (h : s.executes? a = some (j, byte, i, c)) : s.takes a = i.takes c s.devices.keys := by
  cases a with
  | event e => simp [executes?] at h
  | advance k b => simp only [takes, h]
  | demand k => simp [executes?] at h
  | impose k b i' => simp only [takes, h]

theorem takes_of_not_executes {a : Act ι ε} (h : s.executes? a = none)
    (hevent : ∀ e, a ≠ .event e) : s.takes a = [] ∧ a.brings = [] := by
  cases a with
  | event e => exact absurd rfl (hevent e)
  | advance k b => simp only [takes, h, Act.brings, and_self]
  | demand k => simp only [takes, h, Act.brings, and_self]
  | impose k b i => simp only [takes, h, Act.brings, and_self]

theorem brings_of_executes {a : Act ι ε} {p : ι × UInt8 × Instruction × Cpu}
    (h : s.executes? a = some p) : a.brings = [] := by
  cases a with
  | event e => simp [executes?] at h
  | _ => rfl

end Acts

variable [DecidableEq ι]

/-- The keys that several acts take, in their order. -/
def takesAll (o : ι → Options) : Ensemble ι → List (Act ι ε) → List Key
  | _, [] => []
  | s, a :: acts => s.takes a ++ takesAll o (s.perform o a) acts

section Takes

variable (o : ι → Options) (s : Ensemble ι)

/-- No act loses or reorders a key. -/
theorem takes_append_perform (a : Act ι ε) :
    s.takes a ++ (s.perform o a).devices.keys.keys = s.devices.keys.keys ++ a.brings := by
  rcases s.act_cases a with ⟨e, rfl⟩ | ⟨j, byte, i, c, hexec⟩ | ⟨hexec, hno⟩
  · exact Event.takes_append_apply e s.devices
  · rw [takes_of_executes s hexec, brings_of_executes s hexec, perform_of_executes o hexec,
      List.append_nil]
    exact takes_append_execute (o j) byte i c s.devices
  · obtain ⟨htakes, hbrings⟩ := takes_of_not_executes s hexec hno
    rw [htakes, hbrings, devices_perform_of_not_executes o hexec hno, List.append_nil,
      List.nil_append]

/-- What was taken so far, followed by the queue, is the queue from before
followed by what was pressed. -/
theorem takesAll_append_performAll (acts : List (Act ι ε)) :
    s.takesAll o acts ++ (s.performAll o acts).devices.keys.keys =
      s.devices.keys.keys ++ bringsAll acts := by
  induction acts generalizing s with
  | nil => exact (List.append_nil _).symm
  | cons a acts ih =>
      calc s.takesAll o (a :: acts) ++ (s.performAll o (a :: acts)).devices.keys.keys
          = s.takes a ++ ((s.perform o a).takesAll o acts ++
              ((s.perform o a).performAll o acts).devices.keys.keys) :=
            List.append_assoc _ _ _
        _ = s.takes a ++ ((s.perform o a).devices.keys.keys ++ bringsAll acts) := by
            rw [ih (s.perform o a)]
        _ = s.devices.keys.keys ++ (a.brings ++ bringsAll acts) := by
            rw [← List.append_assoc, takes_append_perform o s a, List.append_assoc]
        _ = s.devices.keys.keys ++ bringsAll (a :: acts) := by
            rw [bringsAll, bringsAll, List.flatMap_cons]

/-- Whoever takes a key takes one, the oldest: a wait on an open queue, which
puts it into its register, a test that asked for it, which skips, or someone
who takes it directly. -/
theorem takes_cases {a : Act ι ε} {k : Key} {ks : List Key} (h : s.takes a = k :: ks) :
    ks = [] ∧ s.devices.keys.front? = some k ∧
      (a = .event .pop ∨
        ∃ j byte x c,
          (s.executes? a = some (j, byte, .waitKey x, c) ∧ s.devices.keys.closed = false ∧
            ((s.perform o a).runners j).cpu = c.setReg x k.code) ∨
          (s.executes? a = some (j, byte, .skipKey x, c) ∧ k.code = c.reg x ∧
            ((s.perform o a).runners j).cpu = c.advance)) := by
  rcases s.act_cases a with ⟨e, rfl⟩ | ⟨j, byte, i, c, hexec⟩ | ⟨hexec, hno⟩
  · cases e with
    | pop =>
        have hpop : s.devices.keys.pop.1.toList = k :: ks := h
        rcases KeyQueue.pop_cases s.devices.keys with ⟨-, hq⟩ | ⟨k', ks', hkeys, hq⟩
        · simp [hq] at hpop
        · simp only [hq, Option.toList_some, List.cons.injEq] at hpop
          obtain ⟨rfl, hnil⟩ := hpop
          exact ⟨hnil.symm, by simp [KeyQueue.front?, hkeys], Or.inl rfl⟩
    | _ => cases h
  · rw [takes_of_executes s hexec] at h
    obtain ⟨hnil, hfront, hkind⟩ := takes_eq_cons h
    refine ⟨hnil, hfront, Or.inr ⟨j, byte, ?_⟩⟩
    rcases hkind with ⟨x, rfl, hopen⟩ | ⟨x, rfl, hcode⟩
    · refine ⟨x, c, Or.inl ⟨hexec, hopen, ?_⟩⟩
      rw [runner_perform_of_executes o hexec, execute_waitKey _ _ _ _ _ hopen hfront]
      rfl
    · refine ⟨x, c, Or.inr ⟨hexec, hcode, ?_⟩⟩
      rw [runner_perform_of_executes o hexec]
      rcases execute_skipKey (o j) byte x c s.devices with ⟨-, hskip⟩ | ⟨hother, -⟩
      · rw [hskip]
        rfl
      · exact absurd (by rw [hfront, ← hcode]; rfl) hother
  · rw [(takes_of_not_executes s hexec hno).1] at h
    cases h

end Takes

/-- **Keys are taken in the order in which they were pressed.**  Whatever the
acts and their order, the keys taken so far and the queue are the queue from
before and the keys pressed since.

A key is taken by a wait on an open queue, whose register is then its code, by
a test for its code, which then skips, or directly, and it is always the oldest
one.  Of the two tests one skips and the other does not; the negative test never
takes a key, nor does the other one unless it skips.  A closed queue gives
nothing to those who wait. -/
theorem keys_are_taken_in_order (o : ι → Options) :
    (∀ (s : Ensemble ι) (acts : List (Act ι ε)),
      s.takesAll o acts ++ (s.performAll o acts).devices.keys.keys =
        s.devices.keys.keys ++ bringsAll acts) ∧
    (∀ (s : Ensemble ι) (a : Act ι ε) k ks, s.takes a = k :: ks →
      ks = [] ∧ s.devices.keys.front? = some k ∧
        (a = .event .pop ∨
          ∃ j byte x c,
            (s.executes? a = some (j, byte, .waitKey x, c) ∧ s.devices.keys.closed = false ∧
              ((s.perform o a).runners j).cpu = c.setReg x k.code) ∨
            (s.executes? a = some (j, byte, .skipKey x, c) ∧ k.code = c.reg x ∧
              ((s.perform o a).runners j).cpu = c.advance))) ∧
    (∀ (op : Options) (byte byte' : UInt8) (x : Register) (c : Cpu) (dev : Devices),
      c.advance.pc ≠ c.pc ∧
      ((execute op byte (.skipKey x) c dev).cpu = c.advance ∧
          (execute op byte' (.skipNotKey x) c dev).cpu = c ∨
        (execute op byte (.skipKey x) c dev).cpu = c ∧
          (execute op byte' (.skipNotKey x) c dev).cpu = c.advance) ∧
      (execute op byte' (.skipNotKey x) c dev).devices = dev ∧
      ((execute op byte (.skipKey x) c dev).cpu = c →
        (execute op byte (.skipKey x) c dev).devices = dev)) ∧
    (∀ q : KeyQueue, q.closed = true → q.waitPop = (.closed, q)) := by
  refine ⟨takesAll_append_performAll o, fun s a k ks => takes_cases o s, ?_,
    fun q => KeyQueue.waitPop_of_closed⟩
  intro op byte byte' x c dev
  have hmoves : c.advance.pc ≠ c.pc := c.pc_advance_ne
  rcases execute_skipKey op byte x c dev with ⟨hfront, hskip⟩ | ⟨hfront, hskip⟩
  · rcases execute_skipNotKey op byte' x c dev with ⟨-, hnot⟩ | ⟨hother, -⟩
    · rw [hskip, hnot]
      exact ⟨hmoves, Or.inl ⟨rfl, rfl⟩, rfl, fun h => absurd (congrArg Cpu.pc h) hmoves⟩
    · exact absurd hfront hother
  · rcases execute_skipNotKey op byte' x c dev with ⟨hother, -⟩ | ⟨-, hnot⟩
    · exact absurd hother hfront
    · rw [hskip, hnot]
      exact ⟨hmoves, Or.inr ⟨rfl, rfl⟩, rfl, fun _ => rfl⟩

/-- Two processors: one waits for a key, and the other holds 6 in `V3`. -/
def rivals : Ensemble Bool :=
  ⟨fun j => if j then ⟨Cpu.initial.setReg 3 6, .checking⟩ else ⟨.initial, .waiting 0⟩, .initial⟩

/-- The wait takes 5, the test takes 6 and 7 is taken directly; 8 comes too late. -/
def rivalry : List (Act Bool Unit) :=
  [.event (.press 5), .event (.press 6), .advance false 0, .impose true 0 (.skipKey 3),
    .event (.press 7), .event .announce, .event .closeKeys, .event .pop, .event (.press 8),
    .impose true 0 (.waitKey 1)]

/-- `keys_are_taken_in_order` for two processors that compete for keys, for the
first key taken there, for a test of an empty queue, and for a closed queue. -/
theorem keys_are_taken_in_order_rivals :
    rivals.takesAll (fun _ => .standard) rivalry = [5, 6, 7] ∧
      [5, 6, 7] ++ (rivals.performAll (fun _ => .standard) rivalry).devices.keys.keys =
        [5, 6, 7, 8] ∧
      ({ rivals with devices := rivals.devices.press 5 }).takes
        (.advance false 0 : Act Bool Unit) = [5] ∧
      (rivals.devices.press 5).keys.front? = some 5 ∧
      (execute .standard 0 (.skipKey 0) .initial .initial).cpu = .initial ∧
      (execute .standard 0 (.skipKey 0) .initial .initial).devices = .initial ∧
      (⟨[5], true⟩ : KeyQueue).waitPop = (.closed, ⟨[5], true⟩) := by
  obtain ⟨horder, htaker, htests, hclosed⟩ :=
    keys_are_taken_in_order (ι := Bool) (ε := Unit) (fun _ => .standard)
  have htakes : rivals.takesAll (fun _ => .standard) rivalry = [5, 6, 7] := by decide +kernel
  have hfirst : ({ rivals with devices := rivals.devices.press 5 }).takes
      (.advance false 0 : Act Bool Unit) = [5] := by decide +kernel
  have hall := horder rivals rivalry
  rw [htakes] at hall
  exact ⟨htakes, hall, hfirst, (htaker _ _ 5 [] hfirst).2.1, rfl,
    (htests .standard 0 0 0 .initial .initial).2.2.2 rfl, hclosed _ rfl⟩

end Ensemble

end Chip8
