import Chip8.Proofs.Devices
import Chip8.Proofs.Faults

/-!
# What one action of a runner does

An action of a runner executes at most one instruction.  `poised?` says which,
and `advance_of_poised` that the action does nothing else.

An instruction that waits for a key takes several actions.  The first of them
has moved the program counter on already; `settled` is the processor without
that.  Seen from there, beginning to wait and going on waiting are the same
step, tried again, and `advance_ways` says what an action comes to: nothing yet,
a completed step, or a fault.  A wait that is given up is no completed step.
-/

set_option autoImplicit false

namespace Chip8

/-! ## What a runner executes -/

namespace Runner

/-- The runner after an instruction. -/
def ofEffect (e : Effect) : Runner :=
  ⟨e.cpu, .after e.outcome⟩

/-- Whether a runner is in the middle of an instruction. -/
def isWaiting (r : Runner) : Bool :=
  match r.phase with
  | .waiting _ => true
  | _ => false

/-- The instruction that a runner executes next, if it executes one, and the
processor that the instruction finds. -/
def poised? (r : Runner) : Option (Instruction × Cpu) :=
  match r.phase with
  | .stepping => r.cpu.current.toOption.map fun i => (i, r.cpu.advance)
  | .waiting x => some (.waitKey x, r.cpu)
  | _ => none

section Advance

variable (o : Options) (byte : UInt8) {r : Runner} (dev : Devices)

theorem advance_of_poised {i : Instruction} {c : Cpu} (h : r.poised? = some (i, c)) :
    (r.advance o byte dev).runner = ofEffect (execute o byte i c dev) ∧
      (r.advance o byte dev).devices = (execute o byte i c dev).devices := by
  unfold poised? at h
  unfold advance
  cases hr : r.phase with
  | stepping =>
      cases hcurrent : r.cpu.current with
      | error f => simp [hr, hcurrent, Except.toOption] at h
      | ok j =>
          simp only [hr, hcurrent, Except.toOption, Option.map_some, Option.some.injEq,
            Prod.mk.injEq] at h
          obtain ⟨rfl, rfl⟩ := h
          simp only [step_of_current hcurrent]
          exact ⟨rfl, rfl⟩
  | waiting x =>
      simp only [hr, Option.some.injEq, Prod.mk.injEq] at h
      obtain ⟨rfl, rfl⟩ := h
      exact ⟨rfl, rfl⟩
  | checking => simp [hr] at h
  | ended f => simp [hr] at h

/-- Without an instruction a runner does not touch the devices. -/
theorem devices_advance_of_not_poised (h : r.poised? = none) :
    (r.advance o byte dev).devices = dev := by
  unfold poised? at h
  unfold advance
  cases hr : r.phase with
  | stepping =>
      rcases step_cases o byte r.cpu dev with
        ⟨e, -, -, hstep⟩ | ⟨w, e, -, -, hstep⟩ | ⟨w, i, -, hcurrent, -⟩
      · simp only [hstep, Action.ofEffect]
      · simp only [hstep, Action.ofEffect]
      · simp [hr, hcurrent, Except.toOption] at h
  | waiting x => simp [hr] at h
  | checking => rfl
  | ended f => rfl

/-- Without an instruction a runner at most goes past a word, and does not wait. -/
theorem runner_advance_of_not_poised (h : r.poised? = none) :
    (r.advance o byte dev).runner.isWaiting = false ∧
      ((r.advance o byte dev).runner.cpu = r.cpu ∨
        (∃ w, r.cpu.fetch = .ok w) ∧ (r.advance o byte dev).runner.cpu = r.cpu.advance) := by
  unfold poised? at h
  unfold advance
  cases hr : r.phase with
  | stepping =>
      rcases step_cases o byte r.cpu dev with
        ⟨e, -, -, hstep⟩ | ⟨w, e, hfetch, -, hstep⟩ | ⟨w, i, -, hcurrent, -⟩
      · simp [hstep, Action.ofEffect, Phase.after, isWaiting]
      · simp [hstep, Action.ofEffect, Phase.after, isWaiting, hfetch]
      · simp [hr, hcurrent, Except.toOption] at h
  | waiting x => simp [hr] at h
  | checking => cases hdown : dev.down <;> exact ⟨rfl, Or.inl rfl⟩
  | ended f => exact ⟨by simp only [isWaiting, hr], Or.inl rfl⟩

/-- The instruction finds the processor past its word: the one just fetched, or
the one that the wait began with. -/
theorem cpu_of_poised {i : Instruction} {c : Cpu} (h : r.poised? = some (i, c)) :
    c = r.cpu ∨ r.cpu.current = .ok i ∧ c = r.cpu.advance := by
  unfold poised? at h
  cases hr : r.phase with
  | stepping =>
      cases hcurrent : r.cpu.current with
      | error f => simp [hr, hcurrent, Except.toOption] at h
      | ok j =>
          simp only [hr, hcurrent, Except.toOption, Option.map_some, Option.some.injEq,
            Prod.mk.injEq] at h
          obtain ⟨rfl, rfl⟩ := h
          exact Or.inr ⟨rfl, rfl⟩
  | waiting x =>
      simp only [hr, Option.some.injEq, Prod.mk.injEq] at h
      exact Or.inl h.2.symm
  | checking => simp [hr] at h
  | ended f => simp [hr] at h

end Advance

end Runner

/-! ## Steps that wait -/

section Step

variable {o : Options} {byte : UInt8} {cpu : Cpu} {dev : Devices} {x : Register}

@[simp] theorem step_down (o : Options) (byte : UInt8) (cpu : Cpu) (dev : Devices) :
    (step o byte cpu dev).effect.devices.down = dev.down := by
  rcases step_cases o byte cpu dev with
    ⟨e, -, -, h⟩ | ⟨w, e, -, -, h⟩ | ⟨w, i, -, -, h⟩ <;> simp [h]

@[simp] theorem step_closed (o : Options) (byte : UInt8) (cpu : Cpu) (dev : Devices) :
    (step o byte cpu dev).effect.devices.keys.closed = dev.keys.closed := by
  rcases step_cases o byte cpu dev with
    ⟨e, -, -, h⟩ | ⟨w, e, -, -, h⟩ | ⟨w, i, -, -, h⟩ <;> simp [h]

/-- A step that is kept waiting has gone past a wait for a key, and that is all. -/
theorem step_of_blocked (h : (step o byte cpu dev).effect.outcome = .blocked x) :
    cpu.current = .ok (.waitKey x) ∧
      (step o byte cpu dev).effect = ⟨.blocked x, cpu.advance, dev⟩ := by
  rcases step_cases o byte cpu dev with
    ⟨e, -, -, hstep⟩ | ⟨w, e, -, -, hstep⟩ | ⟨w, i, -, hcurrent, hstep⟩
  · rw [hstep] at h
    cases h
  · rw [hstep] at h
    cases h
  · rw [hstep] at h ⊢
    obtain ⟨hi, -, heffect⟩ := execute_of_blocked h
    exact ⟨hi ▸ hcurrent, heffect⟩

/-- A step that waits on a closed queue leaves everything as it was: it takes
back the move of the program counter. -/
theorem step_of_closed (hclosed : dev.keys.closed = true)
    (hcurrent : cpu.current = .ok (.waitKey x)) :
    (step o byte cpu dev).effect = ⟨.done, cpu, dev⟩ := by
  rw [step_of_current hcurrent]
  simp only [execute, KeyQueue.waitPop_of_closed hclosed, Cpu.advance, UInt16.add_sub_cancel]

end Step

/-- Whether a step is completed: it is carried out, and is no wait for a key
that is given up. -/
def Completes (o : Options) (byte : UInt8) (cpu : Cpu) (dev : Devices) : Prop :=
  (step o byte cpu dev).effect.outcome = .done ∧
    ¬ (dev.keys.closed = true ∧ ∃ x, cpu.current = .ok (.waitKey x))

/-- The four ways of a step: it is completed, faults, waits, or gives up waiting. -/
theorem step_ways (o : Options) (byte : UInt8) (c : Cpu) (dev : Devices) :
    (Completes o byte c dev) ∨
    (∃ f, (step o byte c dev).effect.outcome = .fault f) ∨
    (∃ x, c.current = .ok (.waitKey x) ∧
      (step o byte c dev).effect = ⟨.blocked x, c.advance, dev⟩) ∨
    (∃ x, c.current = .ok (.waitKey x) ∧ dev.keys.closed = true ∧
      (step o byte c dev).effect = ⟨.done, c, dev⟩) := by
  cases hout : (step o byte c dev).effect.outcome with
  | done =>
      by_cases hgives : dev.keys.closed = true ∧ ∃ x, c.current = .ok (.waitKey x)
      · obtain ⟨hclosed, x, hcurrent⟩ := hgives
        exact Or.inr (Or.inr (Or.inr ⟨x, hcurrent, hclosed, step_of_closed hclosed hcurrent⟩))
      · exact Or.inl ⟨hout, hgives⟩
  | fault f => exact Or.inr (Or.inl ⟨f, rfl⟩)
  | blocked x =>
      obtain ⟨hcurrent, heffect⟩ := step_of_blocked hout
      exact Or.inr (Or.inr (Or.inl ⟨x, hcurrent, heffect⟩))

/-! ## Whole steps -/

namespace Runner

/-- The processor of a runner without what it has begun: while it waits for a
key, the program counter has moved on already. -/
def settled (r : Runner) : Cpu :=
  match r.phase with
  | .waiting _ => { r.cpu with pc := r.cpu.pc - 2 }
  | _ => r.cpu

/-- Whether a runner that waits does so for an instruction of its program. -/
def Ready (r : Runner) : Prop :=
  ∀ x, r.phase = .waiting x → r.settled.current = .ok (.waitKey x)

/-- Whether the next action of a runner gives up waiting for a key. -/
def GivesUp (r : Runner) (dev : Devices) (x : Register) : Prop :=
  dev.keys.closed = true ∧
    (r.phase = .stepping ∧ r.cpu.current = .ok (.waitKey x) ∨ r.phase = .waiting x)

section Advance

variable (o : Options) (byte : UInt8) {r : Runner} (dev : Devices)

theorem advance_of_stepping (h : r.phase = .stepping) :
    (r.advance o byte dev).runner = ofEffect (step o byte r.settled dev).effect ∧
      (r.advance o byte dev).devices = (step o byte r.settled dev).effect.devices := by
  have hsettled : r.settled = r.cpu := by simp only [settled, h]
  simp only [advance, h, hsettled]
  exact ⟨rfl, rfl⟩

/-- To go on waiting is the whole step, tried again. -/
theorem advance_of_waiting {x : Register} (hready : r.Ready) (h : r.phase = .waiting x) :
    (r.advance o byte dev).runner = ofEffect (step o byte r.settled dev).effect ∧
      (r.advance o byte dev).devices = (step o byte r.settled dev).effect.devices := by
  have hback : r.settled.advance = r.cpu := by
    simp only [settled, h, Cpu.advance, UInt16.sub_add_cancel]
  rw [step_of_current (hready x h), hback]
  simp only [advance, h]
  exact ⟨rfl, rfl⟩

/-- What a runner does next: it looks whether the run is over, it tries a whole
step with the devices as they are now, or it has ended and does nothing. -/
theorem advance_cases (hready : r.Ready) :
    (r.phase = .checking ∧ r.advance o byte dev =
      ⟨{ r with phase := if dev.down then .ended none else .stepping }, dev, []⟩) ∨
    ((r.advance o byte dev).runner = ofEffect (step o byte r.settled dev).effect ∧
      (r.advance o byte dev).devices = (step o byte r.settled dev).effect.devices) ∨
    (∃ f, r.phase = .ended f ∧ r.advance o byte dev = ⟨r, dev, []⟩) := by
  cases hr : r.phase with
  | checking => exact Or.inl ⟨rfl, by simp only [advance, hr]⟩
  | stepping => exact Or.inr (Or.inl (advance_of_stepping o byte dev hr))
  | waiting x => exact Or.inr (Or.inl (advance_of_waiting o byte dev hready hr))
  | ended f => exact Or.inr (Or.inr ⟨f, rfl, by simp only [advance, hr]⟩)

theorem down_advance : (r.advance o byte dev).devices.down = dev.down := by
  unfold advance
  cases r.phase <;> simp [Action.ofEffect]

theorem closed_advance : (r.advance o byte dev).devices.keys.closed = dev.keys.closed := by
  unfold advance
  cases r.phase <;> simp [Action.ofEffect]

/-- A runner that waits after its action does so for an instruction of its program. -/
theorem ready_advance (hready : r.Ready) : (r.advance o byte dev).runner.Ready := by
  intro x hx
  rcases advance_cases o byte dev hready with ⟨-, h⟩ | ⟨h, -⟩ | ⟨f, hr, h⟩
  · rw [h] at hx
    by_cases hdown : dev.down = true <;> simp [hdown] at hx
  · rw [h] at hx ⊢
    cases hout : (step o byte r.settled dev).effect.outcome with
    | done => simp [ofEffect, hout, Phase.after] at hx
    | fault f => simp [ofEffect, hout, Phase.after] at hx
    | blocked y =>
        obtain ⟨hcurrent, heffect⟩ := step_of_blocked hout
        rw [heffect] at hx ⊢
        have hyx : y = x := Phase.waiting.inj hx
        subst hyx
        simpa [ofEffect, Phase.after, settled, Cpu.advance] using hcurrent
  · rw [h, hr] at hx
    cases hx

/-- A runner ends without a fault only where the run is over. -/
theorem down_of_ended (hready : r.Ready) (hover : r.phase = .ended none → dev.down = true)
    (hended : (r.advance o byte dev).runner.phase = .ended none) : dev.down = true := by
  rcases advance_cases o byte dev hready with ⟨-, h⟩ | ⟨h, -⟩ | ⟨f, hr, h⟩
  · rw [h] at hended
    by_cases hdown : dev.down = true
    · exact hdown
    · simp [hdown] at hended
  · rw [h] at hended
    cases hout : (step o byte r.settled dev).effect.outcome <;>
      simp [ofEffect, hout, Phase.after] at hended
  · rw [h] at hended
    exact hover hended

/-- What one action of a runner comes to: nothing yet, a completed step, or a
fault. -/
theorem advance_ways (hready : r.Ready) (hphase : ∀ f, r.phase ≠ .ended (some f)) :
    ((r.advance o byte dev).runner.settled = r.settled ∧ (r.advance o byte dev).devices = dev ∧
      ∀ f, (r.advance o byte dev).runner.phase ≠ .ended (some f)) ∨
    (Completes o byte r.settled dev ∧
      (r.advance o byte dev).runner = ⟨(step o byte r.settled dev).effect.cpu, .checking⟩ ∧
      (r.advance o byte dev).devices = (step o byte r.settled dev).effect.devices) ∨
    (∃ f, (step o byte r.settled dev).effect.outcome = .fault f ∧
      (r.advance o byte dev).runner =
        ⟨(step o byte r.settled dev).effect.cpu, .ended (some f)⟩ ∧
      (r.advance o byte dev).devices = (step o byte r.settled dev).effect.devices) := by
  rcases advance_cases o byte dev hready with ⟨hr, h⟩ | ⟨hrunner, hdev⟩ | ⟨f, hr, h⟩
  · left
    have hsettled : r.settled = r.cpu := by simp only [settled, hr]
    rw [h, hsettled]
    by_cases hdown : dev.down = true <;> simp [hdown, settled]
  · rw [hrunner, hdev]
    rcases step_ways o byte r.settled dev with
      hdone | ⟨f, hfault⟩ | ⟨x, -, heffect⟩ | ⟨x, -, -, heffect⟩
    · refine Or.inr (Or.inl ⟨hdone, ?_, rfl⟩)
      simp only [ofEffect, hdone.1, Phase.after]
    · refine Or.inr (Or.inr ⟨f, hfault, ?_, rfl⟩)
      simp only [ofEffect, hfault, Phase.after]
    · -- The program counter has moved on, but that is not settled yet.
      rw [heffect]
      simp [ofEffect, Phase.after, settled, Cpu.advance]
    · rw [heffect]
      simp [ofEffect, Phase.after, settled]
  · left
    rw [h]
    exact ⟨rfl, rfl, hphase⟩

/-- A runner that gives up is back at the instruction, as if it had not begun it,
and no key is gone. -/
theorem advance_of_givesUp {x : Register} (hready : r.Ready) (h : r.GivesUp dev x) :
    r.settled.current = .ok (.waitKey x) ∧
      (r.advance o byte dev).runner = ⟨r.settled, .checking⟩ ∧
      (r.advance o byte dev).devices = dev := by
  obtain ⟨hclosed, hphase⟩ := h
  have hcurrent : r.settled.current = .ok (.waitKey x) := by
    rcases hphase with ⟨hr, hcurrent⟩ | hr
    · simpa only [settled, hr] using hcurrent
    · exact hready x hr
  have hstep : (r.advance o byte dev).runner = ofEffect (step o byte r.settled dev).effect ∧
      (r.advance o byte dev).devices = (step o byte r.settled dev).effect.devices := by
    rcases hphase with ⟨hr, -⟩ | hr
    · exact advance_of_stepping o byte dev hr
    · exact advance_of_waiting o byte dev hready hr
  rw [step_of_closed hclosed hcurrent] at hstep
  exact ⟨hcurrent, hstep⟩

end Advance

end Runner

end Chip8
