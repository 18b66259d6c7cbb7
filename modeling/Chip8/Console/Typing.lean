import Chip8.Console.Blank
import Chip8.Key
import Chip8.Simulation

/-!
# Typed input

What is typed arrives as bytes and counts line by line.  A line that is valid
UTF-8 is read character by character: a hexadecimal digit is a key press, `q`
ends the run, blanks mean nothing, and of any other character one is told that
it is ignored.  A line that is not valid UTF-8 ends the run as a whole, a line
that cannot be read to its end does so too, and so does the end of the input,
where a last line needs no line break.

Nothing that is typed after the end of the run is looked at.
-/

set_option autoImplicit false

namespace Chip8.Console

/-- Something that was typed. -/
inductive Typed where
  /-- A key press. -/
  | key (k : Key)
  /-- A character that means nothing. -/
  | ignored (c : Char)
  /-- A line that cannot be read, for this reason. -/
  | unreadable (reason : String)
  /-- The wish to end the run. -/
  | quit
  /-- Nothing more will be looked at. -/
  | ended
  deriving DecidableEq, Repr

/-- What a character other than `q` means, if it means anything. -/
def Typed.ofChar? (c : Char) : Option Typed :=
  match Key.ofDigit? c with
  | some k => some (.key k)
  | none => if isBlank c then none else some (.ignored c)

/-- Input as it is being typed. -/
structure Typing where
  /-- The bytes of the line that is not yet complete, latest first. -/
  line : List UInt8
  /-- Whether the run was ended by what was typed. -/
  finished : Bool
  deriving DecidableEq, Repr

namespace Typing

/-- Nothing typed yet. -/
def initial : Typing := ⟨[], false⟩

instance : Inhabited Typing := ⟨initial⟩

/-- What the characters of a line mean, and whether they end the run. -/
def readLine : List Char → List Typed × Bool
  | [] => ([], false)
  | c :: cs =>
    if c = 'q' then
      ([.quit], true)
    else
      let (later, stops) := readLine cs
      ((Typed.ofChar? c).toList ++ later, stops)

/-- Why a line that is no valid text cannot be read. -/
def notText : String :=
  "stream did not contain valid UTF-8"

/-- A line cannot be read, and no more is looked at. -/
def breakOff (reason : String) : Typing × List Typed :=
  (⟨[], true⟩, [.unreadable reason, .ended])

/-- Completes the line. -/
def endLine (t : Typing) : Typing × List Typed :=
  match String.fromUTF8? t.line.reverse.toByteArray with
  | none => breakOff notText
  | some text =>
    let (typed, stops) := readLine text.toList
    (⟨[], stops⟩, typed)

/-- Takes in further bytes. -/
def feed : Typing → List UInt8 → Typing × List Typed
  | t, [] => (t, [])
  | t, b :: bs =>
    if t.finished then
      (t, [])
    else if b = 10 then
      let (t', typed) := t.endLine
      let (t'', later) := feed t' bs
      (t'', typed ++ later)
    else
      feed { t with line := b :: t.line } bs

/-- Takes in the end of the input. -/
def finish (t : Typing) : Typing × List Typed :=
  if t.finished then
    (t, [])
  else
    let (t', typed) := t.endLine
    if t'.finished then (t', typed) else (⟨[], true⟩, typed ++ [.ended])

/-- Takes in that the input cannot be read any further.  What there is of a line
is lost. -/
def fail (t : Typing) (reason : String) : Typing × List Typed :=
  if t.finished then (t, []) else breakOff reason

/-- All that a whole input means. -/
def ofInput (bytes : List UInt8) : List Typed :=
  let (t, typed) := initial.feed bytes
  typed ++ t.finish.2

end Typing

/-- What something typed does to a machine. -/
def Typed.apply (s : Simulation) : Typed → Simulation
  | .key k => s.press k
  | .ignored c => s.tell [.inputIgnored c]
  | .unreadable reason => s.tell [.inputUnreadable reason]
  | .quit => s.shutDown
  | .ended => (s.tell [.inputEnded]).shutDown

namespace Typed

/-- What all that was typed does to a machine, one after the other.  Keys are
held back, latest first, until something else comes, and then pressed together. -/
def applyAll (held : List Key) (s : Simulation) : List Typed → Simulation
  | [] => s.pressAll held.reverse
  | .key k :: rest => applyAll (k :: held) s rest
  | t :: rest => applyAll [] (t.apply (s.pressAll held.reverse)) rest

/-- Holding keys back makes no difference. -/
theorem applyAll_eq_foldl (held : List Key) (s : Simulation) (all : List Typed) :
    applyAll held s all = all.foldl apply (s.pressAll held.reverse) := by
  induction all generalizing held s with
  | nil => simp [applyAll]
  | cons t rest ih =>
      cases t with
      | key k =>
          rw [applyAll, ih, List.foldl_cons, apply, List.reverse_cons, Simulation.pressAll_concat]
      | _ => simp [applyAll, ih, Simulation.pressAll_nil]

end Typed

end Chip8.Console
