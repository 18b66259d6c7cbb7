import Chip8.Console.Rehearsal
import Chip8.Proofs.Tone
import Chip8.Watch

/-!
# Whoever plays a machine

Between two actions of a machine anything may happen, and a `Concert` leaves open what
and when: its acts come in any order.  Someone who plays a machine has settled on an
order, by a clock, by what is typed and by what is seen.  Here it is shown that he does
no more than that: each thing that he does is a list of acts (`Simulation.Becomes`), so
whatever holds of all runs of a concert holds of what he plays.

He also never takes back what was told.
-/

set_option autoImplicit false

namespace Chip8

namespace Simulation

/-- The parts of a simulation that act: its processor and the loop of the tone. -/
def concert (s : Simulation) : Concert Unit :=
  ⟨.ofLoop s.tone, ⟨fun _ => s.runner, s.devices⟩⟩

/-- One simulation comes of another by acts of its parts and its surroundings. -/
structure Becomes (s t : Simulation) : Prop where
  acts : ∃ acts : List (Concert.Act Unit Empty),
    t.concert = s.concert.performAll (fun _ => s.options) acts
  options : t.options = s.options
  verbosity : t.verbosity = s.verbosity
  told : s.log.toList <+: t.log.toList

variable {s t u : Simulation}

theorem Becomes.refl (s : Simulation) : s.Becomes s where
  acts := ⟨[], rfl⟩
  options := rfl
  verbosity := rfl
  told := List.prefix_rfl

theorem Becomes.trans (h : s.Becomes t) (h' : t.Becomes u) : s.Becomes u where
  acts := by
    obtain ⟨acts, hacts⟩ := h.acts
    obtain ⟨more, hmore⟩ := h'.acts
    refine ⟨acts ++ more, ?_⟩
    rw [hmore, hacts, h.options]
    exact List.foldl_append.symm
  options := h'.options.trans h.options
  verbosity := h'.verbosity.trans h.verbosity
  told := h.told.trans h'.told

/-- What is told is no act. -/
theorem becomes_tell (s : Simulation) (notices : List Notice) : s.Becomes (s.tell notices) where
  acts := ⟨[], rfl⟩
  options := rfl
  verbosity := rfl
  told := by simp [tell]

theorem becomes_event (s : Simulation) (e : Event Empty) :
    s.Becomes { s with devices := e.apply s.devices } where
  acts := ⟨[.other (.event e)], rfl⟩
  options := rfl
  verbosity := rfl
  told := List.prefix_rfl

/-! ## Single events -/

theorem becomes_act (s : Simulation) : s.Becomes s.act := by
  let action := s.runner.advance s.options s.dice.roll.1 s.devices
  have hact : s.Becomes
      { s with runner := action.runner, devices := action.devices, dice := s.dice.roll.2 } := by
    refine ⟨⟨[.other (.advance () s.dice.roll.1)], ?_⟩, rfl, rfl, List.prefix_rfl⟩
    simp [concert, Concert.performAll, Concert.perform, Ensemble.perform, Ensemble.setRunner,
      action]
  exact hact.trans (becomes_tell _ action.log)

/-- A turn of the loop of the tone is three of its acts. -/
theorem becomes_iterate (s : Simulation) :
    s.Becomes { s with
      tone := (s.tone.iterate s.devices).1
      devices := (s.tone.iterate s.devices).2.1 } where
  acts := ⟨[.play, .play, .play], (Concert.performAll_turn _ s.tone s.concert.ensemble).1.symm⟩
  options := rfl
  verbosity := rfl
  told := List.prefix_rfl

theorem becomes_tick (s : Simulation) : s.Becomes s.tick := by
  cases hdown : s.devices.down with
  | true =>
      have hturn := (becomes_iterate s).trans (becomes_tell _
        ((s.tone.iterate s.devices).2.2.flatMap (ToneCall.notices true)))
      simpa [tick, hdown] using hturn
  | false =>
      let counted : Simulation := { s with devices := s.devices.tickDelay.2 }
      have hturn := ((becomes_event s .tickDelay).trans (becomes_iterate counted)).trans
        (becomes_tell _
          ((s.tone.iterate s.devices.tickDelay.2).2.2.flatMap (ToneCall.notices false)))
      simpa [tick, hdown] using hturn

theorem becomes_press (s : Simulation) (k : Key) : s.Becomes (s.press k) :=
  becomes_event s (.press k)

theorem becomes_shutDown (s : Simulation) : s.Becomes s.shutDown :=
  ((becomes_event s .announce).trans (becomes_event _ .closeKeys)).trans
    (becomes_tell _ s.devices.shutDown.2)

/-! ## Stretches of work -/

theorem becomes_workToPause (most : Nat) (s : Simulation) :
    s.Becomes (workToPause most s).simulation := by
  induction most generalizing s with
  | zero => exact .refl s
  | succ most ih =>
      simp only [workToPause]
      split
      · exact .refl s
      · split
        · exact s.becomes_act
        · exact s.becomes_act.trans (ih s.act)

/-! ## The end -/

/-- Once the run is over, a tick ends the loop of the tone and changes no device. -/
theorem tick_of_down (h : s.devices.down = true) :
    s.tick.devices = s.devices ∧ s.tick.tone.ended = true := by
  cases hended : s.tone.ended <;> simp [tick, tell, SoundLoop.iterate, h, hended]

/-- A tone that was off at first is off once the loop has ended. -/
theorem Becomes.silent (h : s.Becomes t) (hstart : s.tone = .initial)
    (hended : t.tone.ended = true) : t.tone.playing = false := by
  obtain ⟨acts, hacts⟩ := h.acts
  have hphase : t.concert.thread.phase = .ended := by
    simp only [concert, SoundThread.ofLoop, hended, ↓reduceIte]
  have hsilent : s.concert.thread.phase = .ended → s.concert.thread.playing = false := by
    intro hover
    rw [concert, hstart] at hover
    cases hover
  rw [hacts] at hphase
  have hplaying := Concert.silent_performAll _ s.concert acts hsilent hphase
  rw [← hacts] at hplaying
  exact hplaying

end Simulation

/-! ## Watches -/

namespace Watch

theorem becomes_tick (p : Pace) (w : Watch) : w.simulation.Becomes (w.tick p).simulation := by
  simp only [tick]
  split
  · exact w.simulation.becomes_tick
  · exact .refl _

theorem becomes_work (w : Watch) : w.simulation.Becomes w.work.simulation := by
  rw [work]
  split <;> exact Simulation.becomes_workToPause _ _

theorem becomes_turn (p : Pace) (goal : Devices → Bool) (w : Watch) :
    w.simulation.Becomes (w.turn p goal).simulation := by
  simp only [turn, look]
  split
  · exact w.becomes_tick p
  · exact w.becomes_work

theorem becomes_keep (p : Pace) (goal : Devices → Bool) (fuel : Nat) (w : Watch) :
    w.simulation.Becomes (keep p goal fuel w).simulation := by
  induction fuel generalizing w with
  | zero => exact .refl _
  | succ fuel ih =>
      simp only [keep]
      split
      · exact w.becomes_turn p goal
      · exact (w.becomes_turn p goal).trans (ih _)

/-- A watch lets its machine run, and does nothing else to it. -/
theorem becomes_run (p : Pace) (goal : Devices → Bool) (fuel : Nat) (s : Simulation) :
    s.Becomes (run p goal fuel s).simulation := by
  simp only [run]
  split
  · exact .refl s
  · exact becomes_keep p goal fuel (start p goal s)

end Watch

namespace Console

/-! ## Sessions -/

theorem Typed.becomes_apply (s : Simulation) (x : Typed) : s.Becomes (x.apply s) := by
  cases x with
  | key k => exact s.becomes_press k
  | ignored c | unreadable reason => exact s.becomes_tell _
  | quit => exact s.becomes_shutDown
  | ended => exact (s.becomes_tell _).trans (Simulation.becomes_shutDown _)

theorem Typed.becomes_applyAll (s : Simulation) (all : List Typed) :
    s.Becomes (Typed.applyAll [] s all) := by
  rw [Typed.applyAll_eq_foldl, List.reverse_nil, s.pressAll_nil]
  induction all generalizing s with
  | nil => exact .refl s
  | cons x all ih => exact (x.becomes_apply s).trans (ih _)

namespace Session

variable (s : Session)

theorem becomes_type (bytes : List UInt8) : s.simulation.Becomes (s.type bytes).simulation :=
  Typed.becomes_applyAll _ _

theorem becomes_endInput : s.simulation.Becomes s.endInput.simulation :=
  Typed.becomes_applyAll _ _

theorem becomes_failInput (reason : String) :
    s.simulation.Becomes (s.failInput reason).simulation :=
  Typed.becomes_applyAll _ _

theorem becomes_frame : s.simulation.Becomes s.frame.simulation := by
  simp only [frame]
  split
  · split
    · rename_i hrefresh
      have hevent := s.simulation.becomes_event (.refresh fun _ => .ok ())
      rwa [Event.apply, hrefresh] at hevent
    · exact .refl _
  · exact .refl _

theorem becomes_losePicture (reason : String) :
    s.simulation.Becomes (s.losePicture reason).simulation :=
  s.simulation.becomes_tell _

theorem becomes_strike (now : Nat) (c : Clock) :
    s.simulation.Becomes (s.strike now c).1.simulation := by
  simp only [strike]
  split <;> split
  · exact s.becomes_frame.trans (Simulation.becomes_tick _)
  · exact s.becomes_frame
  · exact s.simulation.becomes_tick
  · exact .refl _

theorem becomes_windUp : s.simulation.Becomes s.windUp.simulation :=
  (s.simulation.becomes_shutDown.trans (Simulation.becomes_tick _)).trans
    (Simulation.becomes_tell _ _)

end Session

/-! ## Rehearsals -/

namespace Rehearsal

theorem becomes_prompt (r : Rehearsal) :
    r.session.simulation.Becomes r.prompt.session.simulation := by
  simp only [prompt]
  split
  · exact .refl _
  · split
    · exact (r.session.becomes_type _).trans (Session.becomes_endInput _)
    · exact r.session.becomes_type _

theorem becomes_work (r : Rehearsal) : r.session.simulation.Becomes r.work.session.simulation := by
  simp only [work]
  split <;> exact Simulation.becomes_workToPause _ _

theorem becomes_turn (r : Rehearsal) : r.session.simulation.Becomes r.turn.session.simulation := by
  let struck : Rehearsal := { r with
    session := (r.session.strike r.now r.clock).1
    clock := (r.session.strike r.now r.clock).2 }
  have hprompt : r.session.simulation.Becomes struck.prompt.session.simulation :=
    (r.session.becomes_strike r.now r.clock).trans struck.becomes_prompt
  simp only [turn]
  split
  · exact hprompt
  · exact hprompt.trans struck.prompt.becomes_work

/-- A rehearsal is one of the runs that its machine can have. -/
theorem becomes_play (turns : Nat) (r : Rehearsal) :
    r.session.simulation.Becomes (play turns r).simulation := by
  induction turns generalizing r with
  | zero => exact .refl _
  | succ turns ih =>
      rw [play]
      split
      · exact .refl _
      · exact r.becomes_turn.trans (ih r.turn)

theorem becomes_start (frequency : UInt32) (input : List UInt8) (chunks : List (List UInt8))
    (closes : Bool) (s : Session) :
    s.simulation.Becomes (start frequency input chunks closes s).session.simulation := by
  simp only [start]
  split
  · exact (s.becomes_type input).trans (Session.becomes_endInput _)
  · exact s.becomes_type input

end Rehearsal

/-! ## A whole session -/

/-- **A session is a run that ends in silence.**  Whatever is typed and whenever, from
its beginning until it is wound up a session is one of the runs that its machine can
have, and nothing that was told is taken back.  In the end the news is out, the queue of
keys is closed, and there is no tone. -/
theorem session_is_run (frequency : UInt32) (input : List UInt8) (chunks : List (List UInt8))
    (closes : Bool) (turns : Nat) (s : Session) (htone : s.simulation.tone = .initial) :
    let final := (Rehearsal.play turns (.start frequency input chunks closes s)).windUp.simulation
    s.simulation.Becomes final ∧ final.devices.down = true ∧ final.devices.keys.closed = true ∧
      final.tone.playing = false := by
  intro final
  let played := Rehearsal.play turns (.start frequency input chunks closes s)
  have hrun : s.simulation.Becomes final :=
    ((Rehearsal.becomes_start frequency input chunks closes s).trans
      (Rehearsal.becomes_play turns _)).trans played.becomes_windUp
  obtain ⟨hdevices, hended⟩ := Simulation.tick_of_down (s := played.simulation.shutDown) rfl
  have hshut : final.devices = played.simulation.shutDown.devices := hdevices
  refine ⟨hrun, ?_, ?_, hrun.silent htone hended⟩
  · rw [hshut]
    rfl
  · rw [hshut]
    rfl

end Console

end Chip8
