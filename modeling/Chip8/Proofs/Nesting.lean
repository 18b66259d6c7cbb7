import Chip8.Proofs.Control
import Chip8.Proofs.Ensemble
import Mathlib.Data.List.Induction
import Mathlib.Data.List.Infix

/-!
# Subroutines nest

Of all that can happen to a processor only two things change its call stack: a
call that succeeds puts an address on top, and a return that succeeds takes the
top away (`stack_perform_cases`).  The rest follows for runs of any length, with
other processors and the surroundings at work in between.  What lies on the
stack stays there as long as the stack does not get lower than that
(`suffix_performAll`), so a return that is the first to get back to the depth
before a call finds the address that this call has put there.
-/

set_option autoImplicit false

namespace Chip8.Ensemble

variable {ι ε : Type}

/-- How many calls of a processor are open. -/
def depth (s : Ensemble ι) (j : ι) : Nat :=
  (s.runners j).cpu.stack.length

/-- A call that succeeded. -/
def Deed.isCall (d : Deed) : Bool :=
  match d.instruction, d.outcome with
  | .call _, .done => true
  | _, _ => false

/-- A return that succeeded. -/
def Deed.isReturn (d : Deed) : Bool :=
  match d.instruction, d.outcome with
  | .ret, .done => true
  | _, _ => false

/-! ## One instruction -/

section Execute

variable (o : Options) (byte : UInt8) (i : Instruction) (c : Cpu) (d : Devices)

/-- The three ways of an instruction with the call stack. -/
theorem execute_stack_cases :
    ((execute o byte i c d).cpu.stack = c.stack ∧
      Deed.isCall ⟨i, c, (execute o byte i c d).outcome⟩ = false ∧
      Deed.isReturn ⟨i, c, (execute o byte i c d).outcome⟩ = false) ∨
    (∃ target, i = .call target ∧ (execute o byte i c d).outcome = .done ∧
      (execute o byte i c d).cpu.stack = c.pc :: c.stack) ∨
    (i = .ret ∧ (execute o byte i c d).outcome = .done ∧
      c.stack = (execute o byte i c d).cpu.pc :: (execute o byte i c d).cpu.stack) := by
  cases i with
  | ret =>
      cases hstack : c.stack with
      | nil =>
          left
          simp [execute, hstack, Deed.isCall, Deed.isReturn]
      | cons a rest =>
          right
          right
          simp [execute, hstack]
  | call a =>
      by_cases hfull : c.stack.length = Cpu.stackDepth
      · left
        simp [execute, hfull, Deed.isCall, Deed.isReturn]
      · right
        left
        exact ⟨a, rfl, by simp [execute, hfull], by simp [execute, hfull]⟩
  | _ =>
      left
      exact ⟨execute_stack o byte _ c d, rfl, rfl⟩

theorem outcome_call (target : UInt16) :
    (execute o byte (.call target) c d).outcome = .fault .stackOverflow ↔
      c.stack.length = Cpu.stackDepth := by
  rw [outcome_eq_fault_iff]
  simp [Instruction.fault?]

theorem outcome_ret :
    (execute o byte .ret c d).outcome = .fault .stackUnderflow ↔ c.stack.length = 0 := by
  rw [outcome_eq_fault_iff, List.length_eq_zero_iff]
  simp [Instruction.fault?]

end Execute

/-! ## One act -/

theorem stack_of_executes {s : Ensemble ι} {a : Act ι ε} {j : ι} {byte : UInt8} {i : Instruction}
    {c : Cpu} (h : s.executes? a = some (j, byte, i, c)) : c.stack = (s.runners j).cpu.stack := by
  rcases cpu_of_executes h with hcpu | ⟨-, hcpu⟩ <;> rw [hcpu]
  rfl

variable [DecidableEq ι] (o : ι → Options)

/-- The three ways of an act with the call stack of one processor. -/
theorem stack_perform_cases (s : Ensemble ι) (j : ι) (a : Act ι ε) :
    (((s.perform o a).runners j).cpu.stack = (s.runners j).cpu.stack ∧
      ∀ d, s.deed? o j a = some d → d.isCall = false ∧ d.isReturn = false) ∨
    (∃ target c, s.deed? o j a = some ⟨.call target, c, .done⟩ ∧
      ((s.perform o a).runners j).cpu.stack = c.pc :: (s.runners j).cpu.stack) ∨
    (∃ c, s.deed? o j a = some ⟨.ret, c, .done⟩ ∧
      (s.runners j).cpu.stack =
        ((s.perform o a).runners j).cpu.pc :: ((s.perform o a).runners j).cpu.stack) := by
  cases hdeed : s.deed? o j a with
  | none =>
      left
      have hstack : ((s.perform o a).runners j).cpu.stack = (s.runners j).cpu.stack := by
        rcases runner_perform_of_no_deed o hdeed with h | ⟨-, h | ⟨-, h⟩⟩ <;> rw [h]
        rfl
      refine ⟨hstack, ?_⟩
      intro d hd
      cases hd
  | some d =>
      obtain ⟨i, c, outcome⟩ := d
      obtain ⟨byte, hexec, hout⟩ := executes_of_deed o hdeed
      have hrunner := runner_perform_of_executes o hexec
      have hcpu : ((s.perform o a).runners j).cpu = (execute (o j) byte i c s.devices).cpu :=
        congrArg Runner.cpu hrunner
      have hfound : c.stack = (s.runners j).cpu.stack := stack_of_executes hexec
      obtain rfl : outcome = (execute (o j) byte i c s.devices).outcome := hout
      rw [hcpu, ← hfound]
      rcases execute_stack_cases (o j) byte i c s.devices with
        ⟨hsame, hcall, hreturn⟩ | ⟨target, rfl, hdone, hpush⟩ | ⟨rfl, hdone, hpop⟩
      · left
        refine ⟨hsame, ?_⟩
        rintro d hd
        obtain rfl := Option.some.inj hd
        exact ⟨hcall, hreturn⟩
      · exact Or.inr (Or.inl ⟨target, c, by rw [hdone], hpush⟩)
      · exact Or.inr (Or.inr ⟨c, by rw [hdone], hpop⟩)

/-- One act keeps the account of calls and returns. -/
theorem depth_perform (s : Ensemble ι) (j : ι) (a : Act ι ε) :
    (s.perform o a).depth j + (s.deed? o j a).toList.countP Deed.isReturn =
      s.depth j + (s.deed? o j a).toList.countP Deed.isCall := by
  unfold depth
  rcases stack_perform_cases o s j a with ⟨hsame, hneither⟩ | ⟨target, c, hdeed, hpush⟩ |
    ⟨c, hdeed, hpop⟩
  · rw [hsame]
    cases hdeed : s.deed? o j a with
    | none => rfl
    | some d =>
        obtain ⟨hcall, hreturn⟩ := hneither d hdeed
        simp [hcall, hreturn]
  · rw [hdeed, hpush]
    simp [Deed.isCall, Deed.isReturn]
  · rw [hdeed, hpop]
    simp [Deed.isCall, Deed.isReturn]

/-- What lies below the top of the stack stays there. -/
theorem suffix_perform {s : Ensemble ι} {j : ι} {a : Act ι ε} {base : List UInt16}
    (h : base <:+ (s.runners j).cpu.stack) (hdeep : base.length ≤ (s.perform o a).depth j) :
    base <:+ ((s.perform o a).runners j).cpu.stack := by
  rcases stack_perform_cases o s j a with ⟨hsame, -⟩ | ⟨target, c, -, hpush⟩ | ⟨c, -, hpop⟩
  · rwa [hsame]
  · rw [hpush]
    exact h.trans (List.suffix_cons _ _)
  · rw [hpop, List.suffix_cons_iff] at h
    rcases h with hall | hrest
    · -- The whole stack was to stay, but its top is gone.
      have hlength := congrArg List.length hall
      simp only [depth] at hdeep
      simp only [List.length_cons] at hlength
      omega
    · exact hrest

/-- Where an act gets below a depth, it is a return, to the address on top. -/
theorem return_of_depth {s : Ensemble ι} {j : ι} {a : Act ι ε} {target : UInt16}
    {base : List UInt16} (h : target :: base <:+ (s.runners j).cpu.stack)
    (hdepth : (s.perform o a).depth j = base.length) :
    (∃ c, s.deed? o j a = some ⟨.ret, c, .done⟩) ∧
      ((s.perform o a).runners j).cpu.stack = base ∧
      ((s.perform o a).runners j).cpu.pc = target := by
  have hlow := h.length_le
  simp only [List.length_cons] at hlow
  unfold depth at hdepth
  rcases stack_perform_cases o s j a with ⟨hsame, -⟩ | ⟨-, c, -, hpush⟩ | ⟨c, hdeed, hpop⟩
  · rw [hsame] at hdepth
    omega
  · rw [hpush, List.length_cons] at hdepth
    omega
  · refine ⟨⟨c, hdeed⟩, ?_⟩
    rw [hpop] at h
    have hwhole := h.eq_of_length (by simp only [List.length_cons, hdepth])
    rw [List.cons.injEq] at hwhole
    exact ⟨hwhole.2.symm, hwhole.1.symm⟩

/-! ## Runs -/

/-- What lies on the stack stays there in a run in which the stack does not get
lower than that.  The induction is on the run, its last act taken apart. -/
theorem suffix_performAll {s : Ensemble ι} {j : ι} {acts : List (Act ι ε)} {base : List UInt16}
    (h : base <:+ (s.runners j).cpu.stack)
    (hdeep : ∀ pre, pre <+: acts → base.length ≤ (s.performAll o pre).depth j) :
    base <:+ ((s.performAll o acts).runners j).cpu.stack := by
  induction acts using List.reverseRecOn with
  | nil => exact h
  | append_singleton acts a ih =>
      have hbefore := ih fun pre hpre => hdeep pre (hpre.trans (List.prefix_append acts [a]))
      have hafter := hdeep (acts ++ [a]) (List.prefix_refl _)
      rw [performAll_concat] at hafter ⊢
      exact suffix_perform o hbefore hafter

theorem depth_performAll (s : Ensemble ι) (j : ι) (acts : List (Act ι ε)) :
    (s.performAll o acts).depth j + (deeds o j s acts).countP Deed.isReturn =
      s.depth j + (deeds o j s acts).countP Deed.isCall := by
  induction acts using List.reverseRecOn with
  | nil => rfl
  | append_singleton acts a ih =>
      have hact := depth_perform o (s.performAll o acts) j a
      rw [performAll_concat, deeds_concat, List.countP_append, List.countP_append]
      omega

section Call

variable {o} {s : Ensemble ι} {j : ι}

/-- A call that finds room puts the address behind it on the stack. -/
theorem stack_perform_call (byte : UInt8) {target : UInt16}
    (hphase : (s.runners j).phase = .stepping)
    (hcurrent : (s.runners j).cpu.current = .ok (.call target))
    (hroom : s.depth j < Cpu.stackDepth) :
    ((s.perform o (.advance j byte : Act ι ε)).runners j).cpu.stack =
      ((s.runners j).cpu.pc + 2) :: (s.runners j).cpu.stack := by
  have hexec := executes_of_current (ε := ε) byte hphase hcurrent
  have hnotFull : ¬ (s.runners j).cpu.stack.length = Cpu.stackDepth := Nat.ne_of_lt hroom
  have hstack := execute_stack (o j) byte (.call target) (s.runners j).cpu.advance s.devices
  rw [runner_perform_of_executes o hexec]
  simp only [Instruction.stackAfter, Cpu.advance, hnotFull, ↓reduceIte] at hstack
  exact hstack

end Call

/-- **Subroutines nest.**  In a run in which no return takes away more than what
was put on the stack since, the stack from before lies at the bottom of the stack.
So after a call the return that is the first to get back to the depth from
before continues behind the call, with the stack from before, whatever was
called in between.

Calls and returns that succeed account for the depth.  A call faults for the
depth of the stack if and only if it is full, a return if and only if it is
empty, and then the stack is as it was. -/
theorem subroutines_nest (o : ι → Options) (s : Ensemble ι) (j : ι) :
    (∀ acts : List (Act ι ε),
      (∀ pre, pre <+: acts → s.depth j ≤ (s.performAll o pre).depth j) →
        (s.runners j).cpu.stack <:+ ((s.performAll o acts).runners j).cpu.stack) ∧
    (∀ byte target (mid : List (Act ι ε)) b, (s.runners j).phase = .stepping →
      (s.runners j).cpu.current = .ok (.call target) → s.depth j < Cpu.stackDepth →
      (∀ pre, pre <+: mid →
        s.depth j < (s.performAll o (.advance j byte :: pre)).depth j) →
      (s.performAll o (.advance j byte :: mid ++ [b])).depth j = s.depth j →
        (∃ c, (s.performAll o (.advance j byte :: mid)).deed? o j b = some ⟨.ret, c, .done⟩) ∧
        ((s.performAll o (.advance j byte :: mid ++ [b])).runners j).cpu.stack =
          (s.runners j).cpu.stack ∧
        ((s.performAll o (.advance j byte :: mid ++ [b])).runners j).cpu.pc.toNat =
          (s.runners j).cpu.pc.toNat + 2) ∧
    (∀ acts : List (Act ι ε),
      (s.performAll o acts).depth j + (deeds o j s acts).countP Deed.isReturn =
        s.depth j + (deeds o j s acts).countP Deed.isCall) ∧
    (∀ (op : Options) byte target (c : Cpu) (d : Devices),
      ((execute op byte (.call target) c d).outcome = .fault .stackOverflow ↔
        c.stack.length = Cpu.stackDepth) ∧
      ((execute op byte .ret c d).outcome = .fault .stackUnderflow ↔ c.stack.length = 0) ∧
      (∀ i f, (execute op byte i c d).outcome = .fault f →
        (execute op byte i c d).cpu.stack = c.stack)) := by
  refine ⟨?_, ?_, fun acts => depth_performAll o s j acts, ?_⟩
  · intro acts hdeep
    exact suffix_performAll o (List.suffix_refl _) hdeep
  · intro byte target mid b hphase hcurrent hroom hdeep hback
    have hpush := stack_perform_call (o := o) (ε := ε) byte hphase hcurrent hroom
    have hbase : ((s.runners j).cpu.pc + 2) :: (s.runners j).cpu.stack <:+
        ((s.performAll o (.advance j byte :: mid)).runners j).cpu.stack := by
      apply suffix_performAll o (s := s.perform o (.advance j byte : Act ι ε))
      · rw [hpush]
      · exact hdeep
    rw [performAll_concat] at hback ⊢
    obtain ⟨hreturn, hstack, hpc⟩ := return_of_depth o hbase hback
    obtain ⟨w, hfetch, -⟩ := Cpu.fetch_of_current hcurrent
    refine ⟨hreturn, hstack, ?_⟩
    exact (congrArg UInt16.toNat hpc).trans (Cpu.toNat_pc_advance hfetch)
  · intro op byte target c d
    refine ⟨outcome_call op byte c d target, outcome_ret op byte c d, ?_⟩
    intro i f hfault
    rw [execute_of_fault op byte d (outcome_eq_fault_iff.mp hfault)]

/-- A processor about to execute a call, to a subroutine that calls another one. -/
def caller : Ensemble Unit :=
  ⟨fun _ => ⟨{ Cpu.initial with
    memory := ⟨overlay (Vector.replicate 0x1000 0) Memory.programStart
      [0x22, 0x04, 0x00, 0xE0, 0x22, 0x08, 0x00, 0xEE, 0x00, 0xEE]⟩ }, .stepping⟩, .initial⟩

/-- The inner call and the return from it. -/
def within : List (Act Unit Unit) :=
  List.replicate 5 (.advance () 0)

/-- `subroutines_nest` for a call with another one in it. -/
theorem subroutines_nest_caller :
    (caller.runners ()).cpu.current = .ok (.call 0x204) ∧
      (∀ pre, pre <+: within →
        caller.depth () <
          (caller.performAll (fun _ => .standard) (.advance () 0 :: pre)).depth ()) ∧
      [0x202] <:+
        ((caller.performAll (fun _ => .standard) (.advance () 0 :: within)).runners ()).cpu.stack ∧
      ((caller.performAll (fun _ => .standard)
        (.advance () 0 :: within ++ [.advance () 0])).runners ()).cpu.stack = [] ∧
      ((caller.performAll (fun _ => .standard)
        (.advance () 0 :: within ++ [.advance () 0])).runners ()).cpu.pc.toNat = 0x202 := by
  have hcurrent : (caller.runners ()).cpu.current = .ok (.call 0x204) := by decide +kernel
  have hall : ∀ pre ∈ within.inits, caller.depth () <
      (caller.performAll (fun _ => .standard) (.advance () 0 :: pre)).depth () := by
    decide +kernel
  have hdeep : ∀ pre, pre <+: within →
      caller.depth () < (caller.performAll (fun _ => .standard) (.advance () 0 :: pre)).depth () :=
    fun pre hpre => hall pre ((List.mem_inits pre within).mpr hpre)
  have hback : (caller.performAll (fun _ => .standard)
      (.advance () 0 :: within ++ [.advance () 0])).depth () = caller.depth () := by decide +kernel
  obtain ⟨-, hcall, -, -⟩ := subroutines_nest (ε := Unit) (fun _ => .standard) caller ()
  obtain ⟨hstays, -, -, -⟩ := subroutines_nest (ε := Unit) (fun _ => .standard)
    (caller.perform (fun _ => .standard) (.advance () 0 : Act Unit Unit)) ()
  have hpushed : ((caller.perform (fun _ => .standard)
      (.advance () 0 : Act Unit Unit)).runners ()).cpu.stack = [0x202] := by decide +kernel
  have hempty : caller.depth () = 0 := rfl
  have hbase := hstays within fun pre hpre => by
    have hpre' := hdeep pre hpre
    rw [hempty, performAll_cons] at hpre'
    rw [depth, hpushed]
    exact hpre'
  rw [hpushed, ← performAll_cons] at hbase
  have hroom : caller.depth () < Cpu.stackDepth := by
    rw [hempty]
    decide
  obtain ⟨-, hstack, hpc⟩ := hcall 0 0x204 within (.advance () 0) rfl hcurrent hroom hdeep hback
  exact ⟨hcurrent, hdeep, hbase, hstack, hpc⟩

end Chip8.Ensemble
