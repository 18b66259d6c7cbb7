import Chip8.Console.Arguments
import Chip8.Console.Host
import Chip8.Console.Report
import Chip8.Listing

/-!
# The listing command

Writes the listing of a program.  The program comes from a file or from
standard input, and the listing goes to a file or to standard output; a lone
`-` names the standard streams.

The output is made before the program is read.  If both names lead to the same
file, the program is gone by the time it is read, and the listing is empty.
-/

set_option autoImplicit false

namespace Chip8.Console

/-- What the listing command was asked to do. -/
structure ListCommand where
  /-- Where the program comes from. -/
  source : String
  /-- Where the listing goes. -/
  target : String
  /-- How much is told. -/
  verbosity : Verbosity
  deriving DecidableEq, Repr

namespace ListCommand

/-- The switches of the command. -/
def known : List Switch :=
  [⟨"output", some 'o', .optional, false⟩, ⟨"verbose", some 'v', .absent, true⟩]

/-- The name of the standard streams. -/
def standardStream : String := "-"

/-- Reads the arguments of the command. -/
def parse (arguments : List String) : Except UsageError ListCommand :=
  match Arguments.parse known arguments with
  | .error e => .error e
  | .ok a =>
    .ok ⟨a.operand?.getD standardStream, (a.value? "output").getD standardStream,
      ⟨a.count "verbose"⟩⟩

/-- What there is to warn of before a program is listed. -/
def warnings (program : List UInt8) : List Notice :=
  (if Memory.programCapacity < program.length then
    [.programOversized program.length Memory.programCapacity] else []) ++
  (if program.length % 2 = 1 then [.programOdd] else [])

variable {m : Type → Type} {handle : Type}

/-- Opens the source of the program. -/
def openSource [Monad m] (host : Host m handle) (c : ListCommand) : m (Except String handle) :=
  if c.source = standardStream then pure (.ok host.standardInput) else host.openFile c.source

/-- Makes the target of the listing. -/
def openTarget [Monad m] (host : Host m handle) (c : ListCommand) : m (Except String handle) :=
  if c.target = standardStream then pure (.ok host.standardOutput) else host.createFile c.target

/-- Carries the command out. -/
def run [Monad m] (host : Host m handle) (c : ListCommand) : m Report := do
  match ← c.openSource host with
  | .error reason =>
    return .failure [] ⟨"could not open input file '" ++ c.source ++ "'", [reason]⟩
  | .ok source =>
    match ← c.openTarget host with
    | .error reason =>
      return .failure [] ⟨"could not open output file '" ++ c.target ++ "'", [reason]⟩
    | .ok target =>
      match ← host.readAll source with
      | .error reason => return .failure [] ⟨"could not read program", [reason]⟩
      | .ok program =>
        match ← host.write target (Listing.text program) with
        | .error reason =>
          return .failure (warnings program) ⟨"could not write listing", [reason]⟩
        | .ok () => return .success (warnings program)

end ListCommand

end Chip8.Console
