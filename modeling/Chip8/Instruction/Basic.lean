import Chip8.Word

/-!
# Instruction/Basic — the instruction set

Thirty-four instructions. Operands `x` and `y` are register numbers, `nn` is a byte, `nnn` an address
and `n` a count of sprite rows. What each one does to a machine is `Machine.execute`; which opcode
encodes it, `Instruction.decode`; how it is written, `Instruction.mnemonic`.
-/

namespace Chip8

/-- An instruction with its operands. -/
inductive Instruction where
  /-- Darken the screen. -/
  | clearScreen
  /-- Go back to the most recent return address. -/
  | ret
  /-- Go to `nnn`. -/
  | jump (nnn : Word)
  /-- Remember the address after this instruction and go to `nnn`. -/
  | call (nnn : Word)
  /-- Skip the next instruction if register `x` holds `nn`. -/
  | skipEqByte (x : Nat) (nn : Byte)
  /-- Skip the next instruction unless register `x` holds `nn`. -/
  | skipNeByte (x : Nat) (nn : Byte)
  /-- Skip the next instruction if registers `x` and `y` are equal. -/
  | skipEq (x y : Nat)
  /-- Register `x` becomes `nn`. -/
  | setByte (x : Nat) (nn : Byte)
  /-- Add `nn` to register `x`; the flag register stays. -/
  | addByte (x : Nat) (nn : Byte)
  /-- Register `x` becomes register `y`. -/
  | move (x y : Nat)
  /-- Bitwise or into register `x`. -/
  | or (x y : Nat)
  /-- Bitwise and into register `x`. -/
  | and (x y : Nat)
  /-- Bitwise exclusive or into register `x`. -/
  | xor (x y : Nat)
  /-- Add register `y` to register `x`; the flag is the carry. -/
  | add (x y : Nat)
  /-- Subtract register `y` from register `x`; the flag tells that nothing was borrowed. -/
  | sub (x y : Nat)
  /-- Register `x` becomes the source shifted right; the flag is the bit shifted out. -/
  | shiftRight (x y : Nat)
  /-- Register `x` becomes register `y` minus itself; the flag tells that nothing was borrowed. -/
  | subFrom (x y : Nat)
  /-- Register `x` becomes the source shifted left; the flag is the bit shifted out. -/
  | shiftLeft (x y : Nat)
  /-- Skip the next instruction unless registers `x` and `y` are equal. -/
  | skipNe (x y : Nat)
  /-- The index becomes `nnn`. -/
  | setIndex (nnn : Word)
  /-- Go to `nnn` plus register 0. -/
  | jumpOffset (nnn : Word)
  /-- Register `x` becomes a random byte masked by `nn`. -/
  | random (x : Nat) (nn : Byte)
  /-- Draw the `n` sprite rows at the index, with the corner at registers `x` and `y`; the flag tells
  that a lit pixel was turned off. -/
  | draw (x y : Nat) (n : Byte)
  /-- Skip the next instruction if the key in register `x` is down. -/
  | skipKeyDown (x : Nat)
  /-- Skip the next instruction unless the key in register `x` is down. -/
  | skipKeyUp (x : Nat)
  /-- Register `x` becomes the delay timer. -/
  | getDelay (x : Nat)
  /-- Wait for a key and put its code into register `x`. -/
  | awaitKey (x : Nat)
  /-- The delay timer becomes register `x`. -/
  | setDelay (x : Nat)
  /-- The sound timer becomes register `x`. -/
  | setSound (x : Nat)
  /-- Add register `x` to the index. -/
  | addIndex (x : Nat)
  /-- The index becomes the address of the glyph of the digit in register `x`. -/
  | setGlyph (x : Nat)
  /-- Store the three decimal digits of register `x` at the index. -/
  | storeDecimal (x : Nat)
  /-- Store registers 0 to `x` at the index. -/
  | storeRegisters (x : Nat)
  /-- Load registers 0 to `x` from the index. -/
  | loadRegisters (x : Nat)
deriving DecidableEq, Repr

end Chip8
