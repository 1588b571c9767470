import Chip8.Instruction.Basic
import Chip8.Machine.Stack
import Chip8.Sprite

/-!
# Machine/Execute — what each instruction does

Instructions that set the flag register write it last, so it ends as the flag even when it was also the
destination, and operands are read before anything is written. An instruction either lets the program
go on with what follows it or has set the program counter itself; skipping moves the program counter
over one instruction and then goes on.
-/

namespace Chip8

/-- Where the program goes on after an instruction. -/
inductive Flow where
  /-- With the instruction that follows. -/
  | next
  /-- Where the program counter now points. -/
  | jumped
deriving DecidableEq, Repr

/-- The sum of a word and a number, a fault when it needs more than sixteen bits. -/
def Word.sum (w : Word) (n : Nat) : Except Fault Word :=
  if w.toNat + n < 65536 then .ok (BitVec.ofNat 16 (w.toNat + n)) else .error .arithmetic

theorem Word.sum_eq_ok {w : Word} {n : Nat} (h : w.toNat + n < 65536) :
    w.sum n = .ok (BitVec.ofNat 16 (w.toNat + n)) := if_pos h

namespace Machine

variable {κ : Type}

/-- The byte in general register `x`. -/
def readRegister (x : Nat) : MachineM κ Byte := do check ((← get).registers.read x)

/-- Writes a byte to general register `x`. -/
def writeRegister (x : Nat) (b : Byte) : MachineM κ Unit := modifyRegisters (·.write x b)

/-- Adds `d` to general register `x` and gives the register it then is. -/
def addRegister (x : Nat) (d : Int) : MachineM κ (Register 8) := do
  modifyRegisters (·.add x d)
  check ((← get).registers.get x)

/-- Writes a number to general register `x` and gives the register it then is. -/
def setRegister (x : Nat) (n : Int) : MachineM κ (Register 8) := do
  let n ← check (Register.number n)
  modifyRegisters (·.writeInt x n)
  check ((← get).registers.get x)

/-- Writes the flag register. -/
def setFlag (b : Bool) : MachineM κ Unit := modifyRegisters fun r => .ok (r.setFlag b)

/-- Writes the index register. -/
def setIndex (n : Nat) : MachineM κ Unit := modifyRegisters fun r => .ok { r with index := .ofInt n }

/-- Adds to the index register. -/
def addIndex (n : Int) : MachineM κ Unit :=
  modifyRegisters fun r => do return { r with index := ← r.index.add n }

/-- The value of the index register. -/
def index : MachineM κ Word := do return (← get).registers.index.value

/-- Moves the program counter over one instruction. -/
def advance : MachineM κ Unit := modifyRegisters fun r => do return { r with pc := ← r.pc.add 2 }

/-- Goes to `addr`. -/
def jump (addr : Word) : MachineM κ Flow := do
  modifyRegisters fun r => .ok { r with pc := .ofInt addr.toNat }
  return .jumped

/-- Skips the next instruction if the condition holds. -/
def skipIf (condition : Bool) : MachineM κ Flow := do
  if condition then advance
  return .next

/-- General register `x` becomes a function of itself and register `y`. -/
def combine (f : Byte → Byte → Byte) (x y : Nat) : MachineM κ Flow := do
  let vx ← readRegister x
  let vy ← readRegister y
  writeRegister x (f vx vy)
  return .next

/-- The operand of a shift, by the dialect. -/
def shiftOperand (x y : Nat) : MachineM κ Byte := do
  match (← get).dialect.shiftSource with
  | .vx => readRegister x
  | .vy => readRegister y

/-- Whether the key named by the low four bits of register `x` is down. -/
def isKeyDown [Keypad κ] (x : Nat) : MachineM κ Bool := do
  let vx ← readRegister x
  onKeypad (Keypad.isDown (vx &&& 0x0f))

/-- Draws the `n` rows at the index with the corner at `(vx, vy)`. -/
def drawSprite (vx vy : Byte) (n : Nat) : MachineM κ Unit := do
  let m ← get
  let sprite ← check (m.memory.slice (← index).toNat n)
  let (collided, screen) ← check (m.screen.draw vx.toNat vy.toNat sprite)
  set { m with screen }
  setFlag collided

/-- Stores register `r` at its place in a block that starts at `base`. -/
def storeRegister (base : Word) (r : Nat) : MachineM κ Unit := do
  let addr ← check (base.sum r)
  let b ← readRegister r
  modifyMemory (·.set addr.toNat b)

/-- Loads register `r` from its place in a block that starts at `base`. -/
def loadRegister (base : Word) (r : Nat) : MachineM κ Unit := do
  let addr ← check (base.sum r)
  let b ← check ((← get).memory.get addr.toNat)
  writeRegister r b

/-- Moves the index past a block of `n` bytes, in the dialect that does so. -/
def passBlock (n : Nat) : MachineM κ Unit := do
  if (← get).dialect.advancesIndex then addIndex (← check (Register.number n))

/-- The decimal digits of a byte, hundreds first. -/
def decimalDigits (b : Byte) : List Byte := [b / 100, b / 10 % 10, b % 10]

/-- Carries out an instruction. -/
def execute [Keypad κ] : Instruction → MachineM κ Flow
  | .clearScreen => do
    modify fun m => { m with screen := m.screen.clear }
    return .next
  | .ret => do jump (← pop)
  | .jump nnn => jump nnn
  | .call nnn => do
    push (← check ((← pc).sum 2))
    jump nnn
  | .skipEqByte x nn => do skipIf ((← readRegister x) == nn)
  | .skipNeByte x nn => do skipIf ((← readRegister x) != nn)
  | .skipEq x y => do skipIf ((← readRegister x) == (← readRegister y))
  | .skipNe x y => do skipIf ((← readRegister x) != (← readRegister y))
  | .setByte x nn => do
    writeRegister x nn
    return .next
  | .addByte x nn => do
    discard <| addRegister x nn.toNat
    return .next
  | .move x y => combine (fun _ vy => vy) x y
  | .or x y => combine (· ||| ·) x y
  | .and x y => combine (· &&& ·) x y
  | .xor x y => combine (· ^^^ ·) x y
  | .add x y => do
    let vy ← readRegister y
    let sum ← addRegister x vy.toNat
    setFlag sum.overflowed
    return .next
  | .sub x y => do
    let vy ← readRegister y
    let difference ← addRegister x (-vy.toNat)
    setFlag !difference.borrowed
    return .next
  | .subFrom x y => do
    let vy ← readRegister y
    let vx ← readRegister x
    let difference ← setRegister x (vy.toNat - vx.toNat)
    setFlag !difference.borrowed
    return .next
  | .shiftRight x y => do
    let source ← shiftOperand x y
    writeRegister x (source >>> 1)
    setFlag (source.getLsbD 0)
    return .next
  | .shiftLeft x y => do
    let source ← shiftOperand x y
    let doubled ← setRegister x (2 * source.toNat)
    setFlag doubled.overflowed
    return .next
  | .setIndex nnn => do
    setIndex nnn.toNat
    return .next
  | .jumpOffset nnn => do
    let v0 ← readRegister 0
    jump (← check (nnn.sum v0.toNat))
  | .random x nn => do
    let b ← modifyGet fun m => (m.random.next.1, { m with random := m.random.next.2 })
    writeRegister x (b &&& nn)
    return .next
  | .draw x y n => do
    let vx ← readRegister x
    let vy ← readRegister y
    drawSprite vx vy n.toNat
    return .next
  | .skipKeyDown x => do skipIf (← isKeyDown x)
  | .skipKeyUp x => do skipIf !(← isKeyDown x)
  | .getDelay x => do
    writeRegister x (← get).registers.delay.byte
    return .next
  | .awaitKey x => do
    writeRegister x (← onKeypad Keypad.awaitPress)
    return .next
  | .setDelay x => do
    let vx ← readRegister x
    modifyRegisters fun r => .ok { r with delay := .ofInt vx.toNat }
    return .next
  | .setSound x => do
    let vx ← readRegister x
    modifyRegisters fun r => .ok { r with sound := .ofInt vx.toNat }
    return .next
  | .addIndex x => do
    addIndex (← readRegister x).toNat
    return .next
  | .setGlyph x => do
    setIndex (Font.glyphAddr (← readRegister x))
    return .next
  | .storeDecimal x => do
    let vx ← readRegister x
    let addr ← index
    modifyMemory (·.write addr.toNat (decimalDigits vx))
    return .next
  | .storeRegisters x => do
    let base ← index
    (List.range (x + 1)).forM (storeRegister base)
    passBlock (x + 1)
    return .next
  | .loadRegisters x => do
    let base ← index
    (List.range (x + 1)).forM (loadRegister base)
    passBlock (x + 1)
    return .next

end Machine

end Chip8
