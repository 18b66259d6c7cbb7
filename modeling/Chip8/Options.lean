/-!
# Options

The points on which machines of this kind differ, and the pause after a draw.
-/

set_option autoImplicit false

namespace Chip8

/-- How a machine behaves where machines differ. -/
structure Options where
  /-- The pause after each draw, in milliseconds.  It takes time and changes nothing. -/
  drawDelay : Nat
  /-- Whether block transfers leave `I` behind the block they moved. -/
  transfersAdvance : Bool
  /-- Whether shifts read their second register. -/
  shiftsReadSecond : Bool
  deriving DecidableEq, Repr

namespace Options

/-- A pause of one millisecond, `I` stays, and shifts read their first register. -/
def standard : Options :=
  ⟨1, false, false⟩

/-- The standard options without the pause. -/
def unpaused : Options :=
  { standard with drawDelay := 0 }

instance : Inhabited Options := ⟨standard⟩

end Options

end Chip8
