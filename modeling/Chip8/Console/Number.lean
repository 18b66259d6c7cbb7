/-!
# Numbers on the command line

A number is written in decimal digits, after a plus sign if one likes, and has
to be below a bound.  The digits are read from the left, and the first thing
wrong is what is reported: a character that is no digit, or a digit that takes
the number past the bound.
-/

set_option autoImplicit false

namespace Chip8.Console

/-- Why a text is no number below the bound. -/
inductive NumberError where
  /-- There is no digit at all. -/
  | empty
  /-- A character is no digit. -/
  | invalidDigit
  /-- The number reaches the bound. -/
  | tooLarge
  deriving DecidableEq, Repr

/-- What is said about a text that is no number below the bound. -/
def NumberError.message : NumberError → String
  | .empty => "cannot parse integer from empty string"
  | .invalidDigit => "invalid digit found in string"
  | .tooLarge => "number too large to fit in target type"

namespace Number

/-- The value of a decimal digit. -/
def digit? (c : Char) : Option Nat :=
  if '0' ≤ c ∧ c ≤ '9' then some (c.toNat - 48) else none

/-- Reads further digits of a number that began with `value`. -/
def digits (bound value : Nat) : List Char → Except NumberError Nat
  | [] => .ok value
  | c :: cs =>
    match digit? c with
    | none => .error .invalidDigit
    | some d =>
      if 10 * value + d < bound then digits bound (10 * value + d) cs else .error .tooLarge

/-- Reads a number below a bound. -/
def parse (bound : Nat) (text : String) : Except NumberError Nat :=
  match text.toList with
  | [] => .error .empty
  | ['+'] => .error .invalidDigit
  | '+' :: cs => digits bound 0 cs
  | cs => digits bound 0 cs

end Number

end Chip8.Console
