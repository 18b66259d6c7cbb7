import Chip8.Key.Queue
import Chip8.Notice
import Chip8.Screen
import Chip8.Timer

/-!
# Devices

What a running machine shares with its surroundings: the screen, the two
timers, the pending keys, and the news that the run is over.  Timers tick, keys
arrive and the picture is fetched while programs run, and several processors
may work on the same devices.

The run is ended by two actions, and others may happen between them: the news
is given (`announce`), and the queue of keys is closed.  `shutDown` is both.
-/

set_option autoImplicit false

namespace Chip8

/-- The devices that a machine shares with its surroundings. -/
structure Devices where
  /-- The screen. -/
  screen : Screen
  /-- The timer that programs wait by. -/
  delay : Countdown
  /-- The timer that the tone lasts for. -/
  sound : Countdown
  /-- The pending key presses. -/
  keys : KeyQueue
  /-- Whether the run is over. -/
  down : Bool
  deriving DecidableEq

namespace Devices

/-- A blank screen, timers at zero, no keys, and running. -/
def initial : Devices :=
  ⟨.blank, .zero, .zero, .empty, false⟩

instance : Inhabited Devices := ⟨initial⟩

/-- Whether the tone should be sounding. -/
def soundActive (d : Devices) : Bool :=
  d.sound.value != 0

/-- Queues a key press. -/
def press (d : Devices) (k : Key) : Devices :=
  { d with keys := d.keys.push k }

/-- Queues several key presses. -/
def pressAll (d : Devices) (ks : List Key) : Devices :=
  { d with keys := d.keys.pushAll ks }

/-- Gives the news that the run is over.  Only the first time is told. -/
def announce (d : Devices) : Devices × List Notice :=
  ({ d with down := true }, if d.down then [] else [.shuttingDown])

/-- Closes the queue of keys. -/
def closeKeys (d : Devices) : Devices :=
  { d with keys := d.keys.close }

/-- Ends the run. -/
def shutDown (d : Devices) : Devices × List Notice :=
  let (d', log) := d.announce
  (d'.closeKeys, log)

/-- Counts the delay timer down; the first component is the value it had. -/
def tickDelay (d : Devices) : UInt8 × Devices :=
  let (old, delay) := d.delay.tick
  (old, { d with delay })

/-- Counts the sound timer down; the first component is the value it had. -/
def tickSound (d : Devices) : UInt8 × Devices :=
  let (old, sound) := d.sound.tick
  (old, { d with sound })

/-- Shows the picture to a viewer if it is due. -/
def refresh {ε : Type} (viewer : Screen → Except ε Unit) (d : Devices) :
    Screen.Refresh ε × Devices :=
  let (result, screen) := d.screen.refresh viewer
  (result, { d with screen })

/-- Once the run is over the news is not told again. -/
theorem shutDown_log (d : Devices) :
    d.shutDown.2 = if d.down then [] else [.shuttingDown] := rfl

end Devices

end Chip8
