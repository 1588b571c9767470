import Chip8.Error
import Chip8.Font

/-!
# Memory — four kilobytes of bytes

A memory is a store of 4096 bytes. New memory holds the font at the bottom and zeros above it; the call
stack grows from `Memory.stackBase`, and programs are loaded at `Memory.programBase`. An access names a
first address and a size, and is a fault exactly when its range does not lie inside the memory, even if
the range is empty. Words are stored with the high byte first.

* `Memory.get`, `Memory.getWord`, `Memory.slice` — reading one byte, two, or any number;
* `Memory.set`, `Memory.setWord`, `Memory.write` — writing likewise;
* `Memory.load` — a program image, refused as a whole when it does not fit;
* `Memory.getElem_put` — after a write, every byte in terms of the data and the bytes before.
-/

namespace Chip8

/-- The memory of a machine. -/
structure Memory where
  /-- The bytes, by address. -/
  bytes : Vector Byte 4096
deriving DecidableEq, Repr

namespace Memory

/-- The number of bytes. -/
abbrev size : Nat := 4096

/-- The address of the lowest stack entry. -/
def stackBase : Nat := 0x52

/-- The address at which programs are loaded and started. -/
def programBase : Nat := 0x200

/-- The greatest size of a program. -/
def programCapacity : Nat := size - programBase

/-- The bytes with `data` stored from address `a` on. -/
def put (bytes : Vector Byte 4096) (a : Nat) : List Byte → Vector Byte 4096
  | [] => bytes
  | b :: data => put (bytes.setIfInBounds a b) (a + 1) data

/-- New memory: the font at the bottom, zeros above. -/
def new : Memory := ⟨put (.replicate 4096 0) Font.base Font.glyphs⟩

/-- The byte at `a`. -/
def get (m : Memory) (a : Nat) : Except Fault Byte :=
  if h : a < 4096 then .ok m.bytes[a] else .error (.addressRange a 1)

/-- The word whose high byte is at `a`. -/
def getWord (m : Memory) (a : Nat) : Except Fault Word :=
  if h : a + 2 ≤ 4096 then .ok (m.bytes[a] ++ m.bytes[a + 1]) else .error (.addressRange a 2)

/-- The `n` bytes from `a` on. -/
def slice (m : Memory) (a n : Nat) : Except Fault (List Byte) :=
  if h : a + n ≤ 4096 then .ok (List.ofFn fun i : Fin n => m.bytes[a + i])
  else .error (.addressRange a n)

/-- Stores the bytes of `data` from `a` on. -/
def write (m : Memory) (a : Nat) (data : List Byte) : Except Fault Memory :=
  if a + data.length ≤ size then .ok ⟨put m.bytes a data⟩ else .error (.addressRange a data.length)

/-- Stores a byte at `a`. -/
def set (m : Memory) (a : Nat) (b : Byte) : Except Fault Memory := m.write a [b]

/-- Stores a word at `a`, high byte first. -/
def setWord (m : Memory) (a : Nat) (w : Word) : Except Fault Memory := m.write a [w.high, w.low]

/-- Stores a program at the load address, or refuses it when it does not fit. -/
def load (m : Memory) (program : List Byte) : Except Error Memory :=
  if program.length ≤ programCapacity then .ok ⟨put m.bytes programBase program⟩
  else .error (.imageTooLarge program.length programCapacity)

/-! ## Bytes after a write -/

/-- A write replaces the bytes of its range and no other. -/
theorem getElem_put (bytes : Vector Byte 4096) (a : Nat) (data : List Byte) (i : Nat)
    (hi : i < 4096) :
    (put bytes a data)[i] =
      if h : a ≤ i ∧ i < a + data.length then data[i - a] else bytes[i] := by
  induction data generalizing bytes a with
  | nil =>
    rw [dif_neg fun h => Nat.not_lt.2 h.1 h.2]
    rfl
  | cons b data ih =>
    rw [put, ih]
    by_cases hlt : i < a
    · rw [dif_neg (by omega), dif_neg (by omega), Vector.getElem_setIfInBounds_ne _ (by omega)]
    · by_cases heq : a = i
      · subst heq
        rw [dif_neg (by omega), dif_pos (by simp)]
        simp
      · simp only [List.length_cons]
        by_cases hin : i < a + (data.length + 1)
        · rw [dif_pos (by omega), dif_pos (by omega)]
          simp only [show i - a = (i - (a + 1)) + 1 by omega, List.getElem_cons_succ]
        · rw [dif_neg (by omega), dif_neg (by omega),
            Vector.getElem_setIfInBounds_ne _ (by omega)]

variable {m : Memory} {a n : Nat}

@[simp] theorem get_eq_ok (h : a < 4096) : m.get a = .ok m.bytes[a] := dif_pos h

@[simp] theorem getWord_eq_ok (h : a + 2 ≤ 4096) :
    m.getWord a = .ok (m.bytes[a] ++ m.bytes[a + 1]) := dif_pos h

@[simp] theorem slice_eq_ok (h : a + n ≤ 4096) :
    m.slice a n = .ok (List.ofFn fun i : Fin n => m.bytes[a + i]) := dif_pos h

@[simp] theorem write_eq_ok {data : List Byte} (h : a + data.length ≤ 4096) :
    m.write a data = .ok ⟨put m.bytes a data⟩ := if_pos h

end Memory

end Chip8
