import Chip8.Runner

/-!
# Who changes the devices

The devices change in two ways: an instruction is executed, or the surroundings
act.  `execute_devices` says what any instruction leaves of them, and `Event`
lists what the surroundings can do, one uninterrupted action each.  Ending a
run is two events, so that anything may fall between the news and the closing
of the queue.

A queue of keys has one taker at a time, and each way of taking has its cases
here, with the queue that it leaves.
-/

set_option autoImplicit false

namespace Chip8

/-! ## Taking keys -/

namespace KeyQueue

/-- The three answers to someone who waits, and the queue that each leaves. -/
theorem waitPop_cases (q : KeyQueue) :
    (q.closed = true ∧ q.waitPop = (.closed, q)) ∨
    (q.closed = false ∧ q.keys = [] ∧ q.waitPop = (.pending, q)) ∨
    (∃ k ks, q.closed = false ∧ q.keys = k :: ks ∧
      q.waitPop = (.key k, { q with keys := ks })) := by
  unfold waitPop
  cases hclosed : q.closed with
  | true => exact Or.inl ⟨rfl, rfl⟩
  | false =>
      cases hkeys : q.keys with
      | nil => exact Or.inr (Or.inl ⟨rfl, rfl, rfl⟩)
      | cons k ks => exact Or.inr (Or.inr ⟨k, ks, rfl, rfl, rfl⟩)

theorem popIf_cases (q : KeyQueue) (b : UInt8) :
    (∃ k ks, q.keys = k :: ks ∧ k.code = b ∧ q.popIf b = (true, { q with keys := ks })) ∨
    (q.front?.map Key.code ≠ some b ∧ q.popIf b = (false, q)) := by
  unfold popIf front?
  cases hkeys : q.keys with
  | nil => exact Or.inr ⟨by simp, rfl⟩
  | cons k ks =>
      by_cases hcode : k.code = b
      · exact Or.inl ⟨k, ks, rfl, hcode, if_pos hcode⟩
      · exact Or.inr ⟨by simpa using hcode, if_neg hcode⟩

theorem pop_cases (q : KeyQueue) :
    (q.keys = [] ∧ q.pop = (none, q)) ∨
    (∃ k ks, q.keys = k :: ks ∧ q.pop = (some k, { q with keys := ks })) := by
  unfold pop
  cases q.keys with
  | nil => exact Or.inl ⟨rfl, rfl⟩
  | cons k ks => exact Or.inr ⟨k, ks, rfl, rfl⟩

@[simp] theorem closed_waitPop (q : KeyQueue) : q.waitPop.2.closed = q.closed := by
  rcases waitPop_cases q with ⟨-, h⟩ | ⟨-, -, h⟩ | ⟨k, ks, -, -, h⟩ <;> rw [h]

@[simp] theorem closed_popIf (q : KeyQueue) (b : UInt8) : (q.popIf b).2.closed = q.closed := by
  rcases popIf_cases q b with ⟨k, ks, -, -, h⟩ | ⟨-, h⟩ <;> rw [h]

@[simp] theorem closed_pop (q : KeyQueue) : q.pop.2.closed = q.closed := by
  rcases pop_cases q with ⟨-, h⟩ | ⟨k, ks, -, h⟩ <;> rw [h]

end KeyQueue

/-! ## Instructions -/

/-- What an instruction leaves of the devices. -/
def Instruction.devicesAfter (i : Instruction) (c : Cpu) (d : Devices) : Devices :=
  match i with
  | .clear => { d with screen := d.screen.clear }
  | .draw x y rows =>
    match c.readBlock rows.toNat with
    | .error _ => d
    | .ok sprite =>
      { d with screen := (d.screen.draw sprite (c.reg x).toUInt64 (c.reg y).toUInt64).1 }
  | .skipKey x => { d with keys := (d.keys.popIf (c.reg x)).2 }
  | .waitKey _ => { d with keys := d.keys.waitPop.2 }
  | .setDelay x => { d with delay := ⟨c.reg x⟩ }
  | .setSound x => { d with sound := ⟨c.reg x⟩ }
  | _ => d

section Execute

variable (o : Options) (byte : UInt8) (i : Instruction) (cpu : Cpu) (dev : Devices)

/-- Seven kinds of instruction touch the devices, each one device only. -/
theorem execute_devices :
    (execute o byte i cpu dev).devices = i.devicesAfter cpu dev := by
  cases i with
  | ret => simp only [execute, Instruction.devicesAfter]; split <;> rfl
  | call a => simp only [execute, Instruction.devicesAfter]; split <;> rfl
  | draw x y rows =>
      simp only [execute, Instruction.devicesAfter]
      cases cpu.readBlock rows.toNat <;> rfl
  | waitKey x =>
      simp only [execute, Instruction.devicesAfter]
      rcases KeyQueue.waitPop_cases dev.keys with
        ⟨-, h⟩ | ⟨-, -, h⟩ | ⟨k, ks, -, -, h⟩ <;> rw [h]
  | storeDigits x => simp only [execute, Instruction.devicesAfter]; split <;> rfl
  | storeRegisters x => simp only [execute, Instruction.devicesAfter]; split <;> rfl
  | loadRegisters x => simp only [execute, Instruction.devicesAfter]; split <;> rfl
  | _ => rfl

/-- No instruction ends a run, or takes that back. -/
@[simp] theorem execute_down : (execute o byte i cpu dev).devices.down = dev.down := by
  rw [execute_devices]
  cases i with
  | draw x y rows => simp only [Instruction.devicesAfter]; split <;> rfl
  | _ => rfl

@[simp] theorem execute_closed :
    (execute o byte i cpu dev).devices.keys.closed = dev.keys.closed := by
  rw [execute_devices]
  cases i with
  | draw x y rows => simp only [Instruction.devicesAfter]; split <;> rfl
  | skipKey x => exact KeyQueue.closed_popIf _ _
  | waitKey x => exact KeyQueue.closed_waitPop _
  | _ => rfl

end Execute

/-! ## Surroundings -/

/-- One uninterrupted action of the surroundings on the devices.  A viewer that
is shown the picture may fail with an error. -/
inductive Event (ε : Type) where
  /-- A key is pressed. -/
  | press (k : Key)
  /-- The oldest key is taken away. -/
  | pop
  /-- The delay timer is set. -/
  | setDelay (v : UInt8)
  /-- The sound timer is set. -/
  | setSound (v : UInt8)
  /-- The delay timer counts down. -/
  | tickDelay
  /-- The sound timer counts down. -/
  | tickSound
  /-- A viewer is shown the picture if it is due. -/
  | refresh (viewer : Screen → Except ε Unit)
  /-- The picture is made due. -/
  | forceRefresh
  /-- Someone who ends the run gives the news. -/
  | announce
  /-- Someone who ends the run closes the queue of keys. -/
  | closeKeys

namespace Event

variable {ε : Type}

/-- The devices after an event. -/
def apply (e : Event ε) (d : Devices) : Devices :=
  match e with
  | .press k => d.press k
  | .pop => { d with keys := d.keys.pop.2 }
  | .setDelay v => { d with delay := ⟨v⟩ }
  | .setSound v => { d with sound := ⟨v⟩ }
  | .tickDelay => d.tickDelay.2
  | .tickSound => d.tickSound.2
  | .refresh viewer => (d.refresh viewer).2
  | .forceRefresh => { d with screen := d.screen.forceRefresh }
  | .announce => d.announce.1
  | .closeKeys => d.closeKeys

/-- The devices after several events, in their order. -/
def applyAll (es : List (Event ε)) (d : Devices) : Devices :=
  es.foldl (fun d e => e.apply d) d

/-- The news is given by the event that gives it, and never taken back. -/
theorem down_apply_iff (e : Event ε) (d : Devices) :
    (e.apply d).down = true ↔ d.down = true ∨ e = .announce := by
  cases e <;> simp [apply, Devices.announce, Devices.press, Devices.closeKeys, Devices.tickDelay,
    Devices.tickSound, Devices.refresh]

/-- The queue is closed by the event that closes it, and never opened again. -/
theorem closed_apply_iff (e : Event ε) (d : Devices) :
    (e.apply d).keys.closed = true ↔ d.keys.closed = true ∨ e = .closeKeys := by
  cases e <;> simp [apply, Devices.announce, Devices.press, Devices.closeKeys, Devices.tickDelay,
    Devices.tickSound, Devices.refresh, KeyQueue.push, KeyQueue.close]

/-- News that was given stays given. -/
theorem down_apply {e : Event ε} {d : Devices} (h : d.down = true) : (e.apply d).down = true :=
  (e.down_apply_iff d).mpr (Or.inl h)

end Event

end Chip8
