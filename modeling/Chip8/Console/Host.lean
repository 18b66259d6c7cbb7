/-!
# What a command asks of its host

Commands open, create, read and write files.  They do so through a `Host`, a
record of these actions in some monad, so that the same command runs on a real
system and on a small model of one.  The text of a failed action is the host's
own.
-/

set_option autoImplicit false

namespace Chip8.Console

/-- The actions of a host.  A `handle` stands for an open file. -/
structure Host (m : Type → Type) (handle : Type) where
  /-- Opens a file that is there. -/
  openFile : String → m (Except String handle)
  /-- Makes a file, empty, in place of any that was there. -/
  createFile : String → m (Except String handle)
  /-- Reads all that a file holds. -/
  readAll : handle → m (Except String (List UInt8))
  /-- Writes a text at the end of a file. -/
  write : handle → String → m (Except String Unit)
  /-- The input that a command has without asking for it. -/
  standardInput : handle
  /-- The output that a command has without asking for it. -/
  standardOutput : handle

end Chip8.Console
