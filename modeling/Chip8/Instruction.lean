import Chip8.Register

/-!
# Instructions

An instruction is one of thirty-four kinds with its operands: an address, a
register, a register and a byte, two registers, or two registers and a row
count.  The type admits operands that no word can hold (an address above
`0xFFF`, a row count above 15): such instructions can still be executed, and
what they do is given by the same rules.
-/

set_option autoImplicit false

namespace Chip8

/-- A machine instruction.  In the comments `x` and `y` stand for `Vx` and `Vy`. -/
inductive Instruction where
  /-- Clear the screen. -/
  | clear
  /-- Return from a subroutine. -/
  | ret
  /-- Continue at an address. -/
  | jump (target : UInt16)
  /-- Call the subroutine at an address. -/
  | call (target : UInt16)
  /-- Skip the next instruction if `x` equals the byte. -/
  | skipEqByte (x : Register) (byte : UInt8)
  /-- Skip the next instruction if `x` differs from the byte. -/
  | skipNeByte (x : Register) (byte : UInt8)
  /-- Skip the next instruction if `x` equals `y`. -/
  | skipEq (x y : Register)
  /-- Skip the next instruction if `x` differs from `y`. -/
  | skipNe (x y : Register)
  /-- Put the byte into `x`. -/
  | setByte (x : Register) (byte : UInt8)
  /-- Add the byte to `x`, without a flag. -/
  | addByte (x : Register) (byte : UInt8)
  /-- Copy `y` into `x`. -/
  | copy (x y : Register)
  /-- Bitwise or of `y` into `x`. -/
  | or (x y : Register)
  /-- Bitwise and of `y` into `x`. -/
  | and (x y : Register)
  /-- Bitwise exclusive or of `y` into `x`. -/
  | xor (x y : Register)
  /-- Add `y` to `x`; the flag is the carry. -/
  | add (x y : Register)
  /-- Take `y` from `x`; the flag is set if nothing was borrowed. -/
  | sub (x y : Register)
  /-- Put `y - x` into `x`; the flag is set if nothing was borrowed. -/
  | subFrom (x y : Register)
  /-- Shift right by one bit; the flag is the bit shifted out. -/
  | shiftRight (x y : Register)
  /-- Shift left by one bit; the flag is the bit shifted out. -/
  | shiftLeft (x y : Register)
  /-- Put the address into `I`. -/
  | setIndex (address : UInt16)
  /-- Continue at the address plus `V0`. -/
  | jumpOffset (address : UInt16)
  /-- Put a random byte, masked by the byte, into `x`. -/
  | random (x : Register) (mask : UInt8)
  /-- Draw the sprite at `I`, of the given number of rows, at column `x`, row `y`. -/
  | draw (x y : Register) (rows : UInt8)
  /-- Skip the next instruction if the oldest pending key is `x`, and take that key. -/
  | skipKey (x : Register)
  /-- Skip the next instruction unless the oldest pending key is `x`. -/
  | skipNotKey (x : Register)
  /-- Put the delay timer into `x`. -/
  | getDelay (x : Register)
  /-- Wait for a key and put it into `x`. -/
  | waitKey (x : Register)
  /-- Put `x` into the delay timer. -/
  | setDelay (x : Register)
  /-- Put `x` into the sound timer. -/
  | setSound (x : Register)
  /-- Add `x` to `I`. -/
  | addIndex (x : Register)
  /-- Put the address of the glyph of the low nibble of `x` into `I`. -/
  | glyph (x : Register)
  /-- Store the three decimal digits of `x` at `I`. -/
  | storeDigits (x : Register)
  /-- Store the registers up to `x` at `I`. -/
  | storeRegisters (x : Register)
  /-- Load the registers up to `x` from `I`. -/
  | loadRegisters (x : Register)
  deriving DecidableEq, Inhabited

end Chip8
