import Chip8.Register

/-!
# Registers — the register file

Sixteen general registers of eight bits, the sixteen-bit index register and program counter, and
three registers of eight bits: the stack pointer and the two timers. The last general register
doubles as the flag of arithmetic and drawing.

General registers are named by number, and a number without a register is a fault. Reading them goes
through `Registers.read`, writing through `Registers.write`, `Registers.writeInt` and `Registers.add`;
the lemmas at the end give each in terms of the vector `v`.
-/

namespace Chip8

/-- The register file. -/
structure Registers where
  /-- The general registers, by number. -/
  v : Vector (Register 8) 16
  /-- The index register, which addresses memory. -/
  index : Register 16
  /-- The program counter. -/
  pc : Register 16
  /-- The stack pointer: the address of the next free stack entry. -/
  sp : Register 8
  /-- The delay timer. -/
  delay : Register 8
  /-- The sound timer; a tone sounds while it is positive. -/
  sound : Register 8
deriving DecidableEq, Repr

namespace Registers

/-- The register file at the start of a program: zero but for the program counter and the stack
pointer, each cut to its width. -/
def start (pc sp : Nat) : Registers where
  v := .replicate 16 (.ofNat 0)
  index := .ofNat 0
  pc := .ofNat pc
  sp := .ofNat sp
  delay := .ofNat 0
  sound := .ofNat 0

/-- The general register of number `x`. -/
def get (r : Registers) (x : Nat) : Except Fault (Register 8) :=
  if h : x < 16 then .ok r.v[x] else .error (.registerNumber x)

/-- The byte held by general register `x`. -/
def read (r : Registers) (x : Nat) : Except Fault Byte :=
  if h : x < 16 then .ok r.v[x].byte else .error (.registerNumber x)

/-- Writes the number `n` to general register `x`. -/
def writeInt (r : Registers) (x : Nat) (n : Int) : Except Fault Registers :=
  if h : x < 16 then .ok { r with v := r.v.set x (.ofInt n) } else .error (.registerNumber x)

/-- Writes a byte to general register `x`. -/
def write (r : Registers) (x : Nat) (b : Byte) : Except Fault Registers := r.writeInt x b.toNat

/-- Adds `d` to general register `x`. -/
def add (r : Registers) (x : Nat) (d : Int) : Except Fault Registers :=
  if h : x < 16 then do
    let sum ← r.v[x].add d
    .ok { r with v := r.v.set x sum }
  else .error (.registerNumber x)

/-- The byte held by the flag register. -/
def flag (r : Registers) : Byte := r.v[15].byte

/-- Writes 1 or 0 to the flag register. -/
def setFlag (r : Registers) (b : Bool) : Registers :=
  { r with v := r.v.set 15 (.ofInt (if b then 1 else 0)) }

/-! ## General registers through the vector -/

variable {r : Registers} {x : Nat}

@[simp] theorem get_eq_ok (h : x < 16) : r.get x = .ok r.v[x] := dif_pos h

@[simp] theorem read_eq_ok (h : x < 16) : r.read x = .ok r.v[x].byte := dif_pos h

@[simp] theorem writeInt_eq_ok (h : x < 16) (n : Int) :
    r.writeInt x n = .ok { r with v := r.v.set x (.ofInt n) } := dif_pos h

@[simp] theorem write_eq_ok (h : x < 16) (b : Byte) :
    r.write x b = .ok { r with v := r.v.set x (.ofInt b.toNat) } := dif_pos h

/-- A sum of two bytes, or a difference, always fits. -/
@[simp] theorem add_eq_ok (h : x < 16) {d : Int} (hd : d < 65536) :
    r.add x d = .ok { r with v := r.v.set x (.ofInt (r.v[x].toNat + d)) } := by
  rw [add, dif_pos h, Register.add_eq_ok (by decide) hd]
  rfl

end Registers

end Chip8
