import Chip8.Devices

/-!
# The tone

The tone sounds for as long as the sound timer is above zero.  Whoever counts
that timer down also starts and stops the tone: a `SoundLoop` looks whether the
run is over, counts down once, and compares what it found with whether the tone
is playing.  When the run is over it silences a tone that is still playing.
-/

set_option autoImplicit false

namespace Chip8

/-- What a buzzer is told. -/
inductive ToneCall where
  /-- Begin to sound. -/
  | start
  /-- Be silent. -/
  | stop
  deriving DecidableEq, Repr

namespace ToneCall

/-- What is told along with a call.  When the run is over, the tone is silenced
whatever the sound timer holds. -/
def notices (isOver : Bool) : ToneCall → List Notice
  | .start => [.toneOn, .toneStarted]
  | .stop => if isOver then [.toneStopped] else [.toneOff, .toneStopped]

/-- What has to be told to a buzzer that is or is not playing, if it should. -/
def change (playing wanted : Bool) : List ToneCall :=
  match playing, wanted with
  | false, true => [.start]
  | true, false => [.stop]
  | _, _ => []

end ToneCall

/-- The loop that counts the sound timer down. -/
structure SoundLoop where
  /-- Whether the tone is playing. -/
  playing : Bool
  /-- Whether the loop has seen that the run is over. -/
  ended : Bool
  deriving DecidableEq, Repr

namespace SoundLoop

/-- A loop that has not begun: no tone yet. -/
def initial : SoundLoop := ⟨false, false⟩

instance : Inhabited SoundLoop := ⟨initial⟩

/-- One iteration: the loop and the devices afterwards, and what the buzzer is told. -/
def iterate (l : SoundLoop) (dev : Devices) : SoundLoop × Devices × List ToneCall :=
  if l.ended then
    (l, dev, [])
  else if dev.down then
    (⟨false, true⟩, dev, ToneCall.change l.playing false)
  else
    let (old, dev') := dev.tickSound
    let active := old != 0
    (⟨active, false⟩, dev', ToneCall.change l.playing active)

/-- Iterates until the tone has ended and both timers are at zero, at most
`fuel` times, and gives all that the buzzer was told.  The delay timer counts
down alongside. -/
def settle : Nat → SoundLoop → Devices → SoundLoop × Devices × List ToneCall
  | 0, l, dev => (l, dev, [])
  | fuel + 1, l, dev =>
    if !l.playing && dev.sound.value == 0 && dev.delay.value == 0 then
      (l, dev, [])
    else
      let (l', dev', calls) := l.iterate dev.tickDelay.2
      let (l'', dev'', later) := settle fuel l' dev'
      (l'', dev'', calls ++ later)

end SoundLoop

end Chip8
