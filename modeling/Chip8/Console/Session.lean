import Chip8.Console.Clock
import Chip8.Console.Report
import Chip8.Console.Typing
import Chip8.Screen.Text

/-!
# A session at the terminal

A session is a machine in its surroundings, played from a terminal: what is
typed goes to the machine, and the screen, if it is wanted, is printed whenever
it has changed.  Its operations are single events; who plays a session decides
when they happen.
-/

set_option autoImplicit false

namespace Chip8.Console

/-- A machine that is played from a terminal. -/
structure Session where
  /-- The machine in its surroundings. -/
  simulation : Simulation
  /-- What is being typed. -/
  typing : Typing
  /-- Whether the screen is wanted. -/
  showsScreen : Bool
  /-- What was printed so far, one text per picture. -/
  printed : Array String

namespace Session

/-- A session that is about to begin. -/
def start (simulation : Simulation) (showsScreen : Bool) : Session :=
  ⟨simulation, .initial, showsScreen, #[]⟩

/-- A picture as it is printed: on an empty terminal, from its upper left corner. -/
def picture (s : Screen) : String :=
  "\x1b[2J\x1b[H" ++ s.text

/-! ## Events -/

/-- What was typed goes to the machine. -/
def typed (s : Session) (typing : Typing) (all : List Typed) : Session :=
  { s with simulation := Typed.applyAll [] s.simulation all, typing }

/-- Bytes are typed. -/
def type (s : Session) (bytes : List UInt8) : Session :=
  let (typing, all) := s.typing.feed bytes
  s.typed typing all

/-- The input ends. -/
def endInput (s : Session) : Session :=
  let (typing, all) := s.typing.finish
  s.typed typing all

/-- The input cannot be read any further, for this reason. -/
def failInput (s : Session) (reason : String) : Session :=
  let (typing, all) := s.typing.fail reason
  s.typed typing all

/-- The picture is printed if it is wanted and has changed, unless the run is over. -/
def frame (s : Session) : Session :=
  if s.showsScreen && !s.simulation.devices.down then
    let viewer : Screen → Except Empty Unit := fun _ => .ok ()
    match s.simulation.devices.refresh viewer with
    | (.taken screen, devices) =>
      { s with
        simulation := { s.simulation with devices }
        printed := s.printed.push (picture screen) }
    | _ => s
  else
    s

/-- A picture could not be printed, for this reason, and none is wanted any more. -/
def losePicture (s : Session) (reason : String) : Session :=
  { s with simulation := s.simulation.tell [.pictureLost reason], showsScreen := false }

/-- What is due at a time happens: the screen is looked at, and the timers tick. -/
def strike (now : Nat) (c : Clock) (s : Session) : Session × Clock :=
  let (s, c) := if c.frame ≤ now then (s.frame, c.framed now) else (s, c)
  if c.tick ≤ now then ({ s with simulation := s.simulation.tick }, c.ticked now) else (s, c)

/-! ## The end -/

/-- Winds the session up: the timers stop, and so does the tone. -/
def windUp (s : Session) : Session :=
  let stopped := [.timerStopped .delay, .timerStopped .sound]
  { s with simulation := s.simulation.shutDown.tick.tell stopped }

/-- The report of a session whose machine has ended. -/
def report? (s : Session) : Option Report :=
  if s.simulation.hasEnded then
    let s' := s.windUp
    let log := s'.simulation.log.toList
    match s'.simulation.fault? with
    | none => some (.success (log ++ [.shutDown]))
    | some f =>
      let place := "0x" ++ Hex.text 3 s'.simulation.runner.cpu.pc.toNat
      some (.failure log ⟨"program halted at " ++ place, f.reasons⟩)
  else
    none

end Session

end Chip8.Console
