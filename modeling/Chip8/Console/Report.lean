import Chip8.Notice

/-!
# What a command comes to

A command ends with an exit code and has told what there was to tell.  A
failure names what was attempted and the reasons behind it, nearest first.
-/

set_option autoImplicit false

namespace Chip8.Console

/-- A failed attempt. -/
structure Failure where
  /-- What could not be done. -/
  attempt : String
  /-- Why not, nearest reason first. -/
  reasons : List String
  deriving DecidableEq, Repr

/-- What is told about a failure. -/
def Failure.notices (f : Failure) : List Notice :=
  .failed f.attempt :: f.reasons.map .causedBy ++ [.failureOrigin]

/-- The end of a command. -/
structure Report where
  /-- The exit code. -/
  code : Nat
  /-- All that there was to tell, shown or not. -/
  notices : List Notice
  deriving DecidableEq

namespace Report

/-- A command that did what it was asked to. -/
def success (notices : List Notice) : Report :=
  ⟨0, notices⟩

/-- A command that failed, after it told the notices. -/
def failure (notices : List Notice) (f : Failure) : Report :=
  ⟨1, notices ++ f.notices⟩

/-- The lines that a verbosity shows. -/
def errorText (v : Verbosity) (r : Report) : String :=
  String.join ((r.notices.filter fun n => v.shows n.level).map fun n => n.text ++ "\n")

end Report

end Chip8.Console
