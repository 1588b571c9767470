import Chip8.Hex
import Chip8.Instruction.Basic

/-!
# Instruction/Mnemonic — how an instruction is written in a trace

A mnemonic is a name and its operands: registers as `V` and an upper-case digit, bytes as two and
addresses as three lower-case digits, and the special registers by their letters.
-/

namespace Chip8.Instruction

/-- A general register: the letter and its number. -/
def registerName (x : Nat) : String := "V" ++ Hex.upper x

/-- A name with a register and a byte. -/
def withByte (name : String) (x : Nat) (nn : Byte) : String :=
  name ++ " " ++ registerName x ++ ", " ++ Hex.lower 2 nn.toNat

/-- A name with two registers. -/
def withRegisters (name : String) (x y : Nat) : String :=
  name ++ " " ++ registerName x ++ ", " ++ registerName y

/-- A name with an address. -/
def withAddress (name : String) (nnn : Word) : String := name ++ " " ++ Hex.lower 3 nnn.toNat

/-- The text of an instruction. -/
def mnemonic : Instruction → String
  | clearScreen => "CLS"
  | ret => "RET"
  | jump nnn => withAddress "JP" nnn
  | call nnn => withAddress "CALL" nnn
  | skipEqByte x nn => withByte "SE" x nn
  | skipNeByte x nn => withByte "SNE" x nn
  | skipEq x y => withRegisters "SE" x y
  | setByte x nn => withByte "LD" x nn
  | addByte x nn => withByte "ADD" x nn
  | move x y => withRegisters "LD" x y
  | or x y => withRegisters "OR" x y
  | and x y => withRegisters "AND" x y
  | xor x y => withRegisters "XOR" x y
  | add x y => withRegisters "ADD" x y
  | sub x y => withRegisters "SUB" x y
  | shiftRight x y => withRegisters "SHR" x y
  | subFrom x y => withRegisters "SUBN" x y
  | shiftLeft x y => withRegisters "SHL" x y
  | skipNe x y => withRegisters "SNE" x y
  | setIndex nnn => withAddress "LD I," nnn
  | jumpOffset nnn => withAddress "JP V0," nnn
  | random x nn => withByte "RND" x nn
  | draw x y n => withRegisters "DRW" x y ++ ", " ++ Hex.lower 1 n.toNat
  | skipKeyDown x => "SKP " ++ registerName x
  | skipKeyUp x => "SKNP " ++ registerName x
  | getDelay x => "LD " ++ registerName x ++ ", DT"
  | awaitKey x => "LD " ++ registerName x ++ ", K"
  | setDelay x => "LD DT, " ++ registerName x
  | setSound x => "LD ST, " ++ registerName x
  | addIndex x => "ADD I, " ++ registerName x
  | setGlyph x => "LD F, " ++ registerName x
  | storeDecimal x => "LD B, " ++ registerName x
  | storeRegisters x => "LD [I], " ++ registerName x
  | loadRegisters x => "LD " ++ registerName x ++ ", [I]"

example : (draw 0 1 5).mnemonic = "DRW V0, V1, 5" := by cbv

end Chip8.Instruction
