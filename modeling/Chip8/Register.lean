import Chip8.Error

/-!
# Register — a value of fixed width that remembers how the last write went

A register of `width` bits holds a number below `modulus width` and two flags. Every write stores the
written number reduced by it; the flags record whether the number had to be reduced, and in which
direction: `overflowed` when it was too large, `borrowed` when it was negative. Instructions that set a
carry read it off here.

* `Register.ofInt` — the register after a write, whatever it held before;
* `Register.add` — a write of the old value plus a difference, refused only when the sum does not fit
  a 32-bit integer;
* `Register.toNat_ofInt` — the stored number is the written one modulo `modulus width`.
-/

namespace Chip8

/-- A register of `width` bits, with the flags of its last write. -/
structure Register (width : Nat) where
  /-- The number held. -/
  value : BitVec width
  /-- The last write was `2 ^ width` or more. -/
  overflowed : Bool
  /-- The last write was negative. -/
  borrowed : Bool
deriving DecidableEq, Repr

namespace Register

variable {width : Nat}

/-- The greatest width of a register. -/
def maxWidth : Nat := 16

/-- The number of values that a register of this width can hold. -/
def modulus (width : Nat) : Nat := 1 <<< width

/-- A register that starts out with `n` modulo `2 ^ width` and no flag raised. -/
def ofNat (n : Nat) : Register width := ⟨BitVec.ofNat width n, false, false⟩

/-- A register of any width asked for, refused outside 1 to 16 bits. -/
def ofWord (width : Nat) (w : Word) : Except Fault (Register width) :=
  if 1 ≤ width ∧ width ≤ maxWidth then .ok (ofNat w.toNat) else .error (.registerWidth width)

/-- The register after `v` is written to it. Nothing of what it held before is left. -/
def ofInt (v : Int) : Register width where
  value := BitVec.ofInt width v
  overflowed := decide ((modulus width : Int) ≤ v)
  borrowed := decide (v < 0)

/-- The number held. -/
def toNat (r : Register width) : Nat := r.value.toNat

/-- The greatest 32-bit signed integer, the bound on sums and differences on their way into a register. -/
def maxSum : Nat := 2147483647

/-- A sum or a difference, refused when it does not fit a 32-bit signed integer. Its two sides of zero are
compared as natural numbers. -/
def number (v : Int) : Except Fault Int :=
  if v.toNat ≤ maxSum ∧ (-v).toNat ≤ maxSum + 1 then .ok v else .error .arithmetic

/-- Writes the number held plus `d`. -/
def add (r : Register width) (d : Int) : Except Fault (Register width) :=
  if (r.toNat + d).toNat ≤ maxSum then .ok (ofInt (r.toNat + d)) else .error .arithmetic

/-- Writes the number held plus one. -/
def increment (r : Register width) : Except Fault (Register width) := r.add 1

/-- Writes the number held minus one. -/
def decrement (r : Register width) : Except Fault (Register width) := r.add (-1)

/-- One step of a countdown: a positive number goes down by one, and zero stays, flags and all. -/
def countDown (r : Register width) : Register width :=
  if r.toNat = 0 then r else ofInt (r.toNat - 1)

/-- The low eight bits of the number held. -/
def byte (r : Register width) : Byte := r.value.setWidth 8

/-! ## What each write leaves behind -/

theorem modulus_pos : 0 < modulus width := by
  rw [modulus, Nat.one_shiftLeft]
  exact Nat.two_pow_pos width

theorem toNat_lt (r : Register width) : r.toNat < modulus width := by
  rw [modulus, Nat.one_shiftLeft]
  exact r.value.isLt

@[simp] theorem toNat_ofNat (n : Nat) : (ofNat n : Register width).toNat = n % modulus width := by
  rw [modulus, Nat.one_shiftLeft]
  exact BitVec.toNat_ofNat n width

@[simp] theorem toNat_ofInt (v : Int) :
    ((ofInt v : Register width).toNat : Int) = v % modulus width := by
  have h : (0 : Int) < modulus width := Int.natCast_pos.2 modulus_pos
  rw [modulus, Nat.one_shiftLeft] at h ⊢
  rw [toNat, ofInt, BitVec.toNat_ofInt]
  exact Int.toNat_of_nonneg (Int.emod_nonneg _ (Int.ne_of_gt h))

@[simp] theorem overflowed_ofInt (v : Int) :
    (ofInt v : Register width).overflowed = decide ((modulus width : Int) ≤ v) := rfl

@[simp] theorem borrowed_ofInt (v : Int) :
    (ofInt v : Register width).borrowed = decide (v < 0) := rfl

@[simp] theorem toNat_byte (r : Register 8) : r.byte.toNat = r.toNat := by
  simp [byte, toNat]

/-- Numbers far within 32 bits are not refused. -/
theorem number_eq_ok {v : Int} (hlow : -65536 < v) (hhigh : v < 65536) : number v = .ok v :=
  if_pos (by simp only [maxSum]; omega)

/-- A register of at most sixteen bits takes every difference below `65536`. -/
theorem add_eq_ok {r : Register width} {d : Int} (hw : width ≤ maxWidth) (hd : d < 65536) :
    r.add d = .ok (ofInt (r.toNat + d)) := by
  have h := r.toNat_lt
  have : modulus width ≤ 65536 := by
    rw [modulus, Nat.one_shiftLeft]
    exact Nat.pow_le_pow_right (by decide) hw
  rw [add, if_pos (by simp only [maxSum]; omega)]

end Register

end Chip8
