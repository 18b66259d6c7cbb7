import Chip8.Console.ListCommand
import Chip8.Console.PlayCommand

/-!
# The command line

`list` writes the listing of a program and `play` plays one.  Here is only what
touches the real system: the host's actions, the clock, the keyboard and the
terminal.
-/

set_option autoImplicit false

namespace Chip8.Terminal

open Chip8.Console

/-! ## The host -/

/-- What is said about a failed action: the words of the system, and its number
for the failure. -/
def reason : IO.Error → String
  | .alreadyExists _ n words | .noFileOrDirectory _ n words | .invalidArgument _ n words
  | .permissionDenied _ n words | .resourceExhausted _ n words | .inappropriateType _ n words
  | .noSuchThing _ n words | .interrupted _ n words | .otherError n words
  | .resourceBusy n words | .resourceVanished n words | .unsupportedOperation n words
  | .hardwareFault n words | .unsatisfiedConstraints n words | .illegalOperation n words
  | .protocolError n words | .timeExpired n words =>
    words ++ " (os error " ++ toString n.toNat ++ ")"
  | e => toString e

/-- An action, with its failure as text. -/
def attempt {α : Type} (action : IO α) : IO (Except String α) := do
  try
    return .ok (← action)
  catch e =>
    return .error (reason e)

/-- All bytes that are left in a stream. -/
partial def drain (stream : IO.FS.Stream) (before : ByteArray) : IO ByteArray := do
  let block ← stream.read 65536
  if block.isEmpty then
    return before
  else
    drain stream (before ++ block)

/-- The real system as a host. -/
def host (input output : IO.FS.Stream) : Host IO IO.FS.Stream where
  openFile name := attempt do
    return IO.FS.Stream.ofHandle (← IO.FS.Handle.mk name .read)
  createFile name := attempt do
    return IO.FS.Stream.ofHandle (← IO.FS.Handle.mk name .write)
  readAll stream := attempt do
    return (← drain stream .empty).toList
  write stream text := attempt do
    stream.putStr text
    stream.flush
  standardInput := input
  standardOutput := output

/-! ## Listing -/

/-- Carries out the listing command. -/
def list (arguments : List String) : IO UInt32 := do
  let errors ← IO.getStderr
  match ListCommand.parse arguments with
  | .error e =>
    errors.putStrLn e.message
    return 1
  | .ok c =>
    let report ← c.run (host (← IO.getStdin) (← IO.getStdout))
    errors.putStr (report.errorText c.verbosity)
    return UInt32.ofNat report.code

/-! ## Playing -/

/-- The bytes of the next line, with its newline if it has one; none at the end. -/
partial def nextLine (keyboard : IO.FS.Stream) (before : ByteArray) : IO ByteArray := do
  let byte ← keyboard.read 1
  let line := before ++ byte
  if byte.isEmpty || byte.data.toList == [10] then
    return line
  else
    nextLine keyboard line

/-- Prints pictures, and gives the reason if one of them cannot be printed. -/
def print (pictures : Array String) : IO (Except String Unit) := attempt do
  let output ← IO.getStdout
  for picture in pictures do
    output.putStr picture
    output.flush

/-- Prints what a session has printed and told since the last time. -/
def publish (session : Session) : IO Session := do
  let errors ← IO.getStderr
  let session ← match ← print session.printed with
    | .ok () => pure session
    | .error reason => pure (session.losePicture reason)
  let log := session.simulation.log
  for notice in log do
    errors.putStrLn notice.text
  return { session with
    printed := #[]
    simulation := { session.simulation with log := #[] } }

/-- Lets the machine act a few times, unless it pauses. -/
def work (clock : Clock) (session : Session) : IO (Session × Clock) := do
  let now ← IO.monoNanosNow
  if clock.pauses now then
    return (session, clock)
  let stretch := session.simulation.workToPause 512
  let session := { session with simulation := stretch.simulation }
  if stretch.pauses then
    return (session, clock.pause (← IO.monoNanosNow) session.simulation.options.drawDelay)
  else
    return (session, clock)

/-- Takes in what the keyboard has delivered, and asks for more. -/
def listen (keyboard : IO.FS.Stream) (session : Session)
    (pending : Option (Task (Except IO.Error ByteArray))) :
    IO (Session × Option (Task (Except IO.Error ByteArray))) := do
  match pending with
  | none => return (session, none)
  | some task =>
    if ← IO.hasFinished task then
      match task.get with
      | .error e => return (session.failInput (reason e), none)
      | .ok line =>
        if line.isEmpty then
          return (session.endInput, none)
        else
          let next ← IO.asTask (nextLine keyboard .empty) .dedicated
          return (session.type line.data.toList, some next)
    else
      return (session, pending)

/-- Plays a session until its machine has ended. -/
partial def play (keyboard : IO.FS.Stream) (clock : Clock) (session : Session)
    (pending : Option (Task (Except IO.Error ByteArray))) : IO Session := do
  let (session, pending) ← listen keyboard session pending
  let (session, clock) := session.strike (← IO.monoNanosNow) clock
  let (session, clock) ← work clock session
  let session ← publish session
  if session.simulation.hasEnded then
    return session
  if session.simulation.isIdle || clock.pauses (← IO.monoNanosNow) then
    IO.sleep 1
  play keyboard clock session pending

/-- Carries out the playing command. -/
def playFile (arguments : List String) : IO UInt32 := do
  let errors ← IO.getStderr
  match PlayCommand.parse arguments with
  | .error e =>
    errors.putStrLn e.message
    return 1
  | .ok c =>
    let keyboard ← IO.getStdin
    let seed ← IO.rand 0 4294967295
    match ← c.prepare (host keyboard (← IO.getStdout)) (.ofSeed (UInt64.ofNat seed)) with
    | .error f =>
      let report := Report.failure [] f
      errors.putStr (report.errorText c.verbosity)
      return UInt32.ofNat report.code
    | .ok (session, frequency) =>
      let clock := Clock.start frequency (← IO.monoNanosNow)
      let pending ← IO.asTask (nextLine keyboard .empty) .dedicated
      let session ← play keyboard clock session (some pending)
      match session.report? with
      | none => return 1
      | some report =>
        errors.putStr (report.errorText c.verbosity)
        return UInt32.ofNat report.code

end Chip8.Terminal

/-- The command: its first argument names what to do. -/
def main (arguments : List String) : IO UInt32 := do
  match arguments with
  | "list" :: rest => Chip8.Terminal.list rest
  | "play" :: rest => Chip8.Terminal.playFile rest
  | _ =>
    (← IO.getStderr).putStrLn "usage: chip8 list [-v] [-o OUTPUT] [FILE] | chip8 play [SWITCHES] FILE"
    return 1
