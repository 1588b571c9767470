import Chip8.Opcode
import Chip8.Instruction.Basic

/-!
# Instruction/Decode — which opcodes encode an instruction

The group digit decides, and in groups 0, 8, e and f the low digits as well. Groups 5 and 9 pay no
attention to the last digit. An opcode outside the instruction set decodes to nothing.

* `Instruction.decode` — the instruction an opcode encodes;
* `Instruction.InRange` — operands as small as the fields they are decoded from, which
  `Instruction.inRange_of_decode` shows of every decoded instruction.
-/

namespace Chip8.Instruction

/-- Group 0: only two of its opcodes are instructions. -/
def decodeSystem (op : Opcode) : Option Instruction :=
  match op.nnn.toNat with
  | 0x0e0 => some .clearScreen
  | 0x0ee => some .ret
  | _ => none

/-- Group 8: arithmetic on two registers, chosen by the last digit. -/
def decodeArithmetic (op : Opcode) : Option Instruction :=
  match op.n.toNat with
  | 0x0 => some (.move op.x op.y)
  | 0x1 => some (.or op.x op.y)
  | 0x2 => some (.and op.x op.y)
  | 0x3 => some (.xor op.x op.y)
  | 0x4 => some (.add op.x op.y)
  | 0x5 => some (.sub op.x op.y)
  | 0x6 => some (.shiftRight op.x op.y)
  | 0x7 => some (.subFrom op.x op.y)
  | 0xe => some (.shiftLeft op.x op.y)
  | _ => none

/-- Group e: tests of a key. -/
def decodeKey (op : Opcode) : Option Instruction :=
  match op.nn.toNat with
  | 0x9e => some (.skipKeyDown op.x)
  | 0xa1 => some (.skipKeyUp op.x)
  | _ => none

/-- Group f: timers, the index and transfers, chosen by the last two digits. -/
def decodeTransfer (op : Opcode) : Option Instruction :=
  match op.nn.toNat with
  | 0x07 => some (.getDelay op.x)
  | 0x0a => some (.awaitKey op.x)
  | 0x15 => some (.setDelay op.x)
  | 0x18 => some (.setSound op.x)
  | 0x1e => some (.addIndex op.x)
  | 0x29 => some (.setGlyph op.x)
  | 0x33 => some (.storeDecimal op.x)
  | 0x55 => some (.storeRegisters op.x)
  | 0x65 => some (.loadRegisters op.x)
  | _ => none

/-- The instruction an opcode encodes. -/
def decode (op : Opcode) : Option Instruction :=
  match op.group with
  | 0x0 => decodeSystem op
  | 0x1 => some (.jump op.nnn)
  | 0x2 => some (.call op.nnn)
  | 0x3 => some (.skipEqByte op.x op.nn)
  | 0x4 => some (.skipNeByte op.x op.nn)
  | 0x5 => some (.skipEq op.x op.y)
  | 0x6 => some (.setByte op.x op.nn)
  | 0x7 => some (.addByte op.x op.nn)
  | 0x8 => decodeArithmetic op
  | 0x9 => some (.skipNe op.x op.y)
  | 0xa => some (.setIndex op.nnn)
  | 0xb => some (.jumpOffset op.nnn)
  | 0xc => some (.random op.x op.nn)
  | 0xd => some (.draw op.x op.y op.n)
  | 0xe => decodeKey op
  | 0xf => decodeTransfer op
  | _ => none

/-- The operands are no greater than the fields of an opcode: register numbers and row counts below 16,
addresses below 4096. -/
def InRange : Instruction → Prop
  | clearScreen | ret => True
  | jump nnn | call nnn | setIndex nnn | jumpOffset nnn => nnn.toNat < 4096
  | skipEqByte x _ | skipNeByte x _ | setByte x _ | addByte x _ | random x _ => x < 16
  | skipEq x y | skipNe x y | move x y | or x y | and x y | xor x y | add x y | sub x y
  | shiftRight x y | subFrom x y | shiftLeft x y => x < 16 ∧ y < 16
  | draw x y n => x < 16 ∧ y < 16 ∧ n.toNat < 16
  | skipKeyDown x | skipKeyUp x | getDelay x | awaitKey x | setDelay x | setSound x | addIndex x
  | setGlyph x | storeDecimal x | storeRegisters x | loadRegisters x => x < 16

theorem inRange_of_decode {op : Opcode} {i : Instruction} (h : decode op = some i) : i.InRange := by
  have hx := op.x_lt
  have hy := op.y_lt
  have hn := op.n_lt
  have hnnn := op.nnn_lt
  unfold decode decodeSystem decodeArithmetic decodeKey decodeTransfer at h
  repeat' split at h
  all_goals first
    | contradiction
    | (obtain rfl := Option.some.inj h; simp only [InRange] <;> omega)

end Chip8.Instruction
