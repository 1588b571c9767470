/-!
# Rounding — double precision in exact arithmetic

A number of double precision has 53 significant binary digits. The quotient of two such numbers and the
square root of one are the exact values rounded once: to the nearest number of so many digits, and half
way between two of them to the one whose last digit is even. Everything here is a whole number; a
fraction is counted in units so small that all its significant digits are whole.

* `Rounding.quotient`, `Rounding.root` — the rounded quotient and square root;
* `Rounding.signed` — a whole number of either sign, rounded;
* `Rounding.whole_of_lt` — a number of at most 53 digits is itself;
* `Rounding.floorRoot_le`, `Rounding.lt_floorRoot` — the square root cut to a whole number, from which
  the rounded one is found.
-/

namespace Chip8.Rounding

/-- The number of significant binary digits. -/
def precision : Nat := 53

/-- How many of the low binary digits of `n` are not significant. -/
def spare (n : Nat) : Nat := n.log2 + 1 - precision

/-- The nearer of `m` and `m + 1` to a value between them, told by how a number `x` that belongs to the
value compares with the number `mid` that belongs to the middle. In the middle it is the even one. -/
def settle (m x mid : Nat) : Nat :=
  if x < mid then m else if mid < x then m + 1 else m + m % 2

/-- The quotient `a / b`, rounded. -/
def quotient (a b : Nat) : Nat :=
  let e := spare (a / b)
  let step := b <<< e
  let m := a / step
  settle m (2 * a) ((2 * m + 1) * step) <<< e

/-- A whole number, rounded. -/
def whole (n : Nat) : Nat := quotient n 1

/-- A whole number of either sign, rounded. -/
def signed (z : Int) : Int := z.sign * whole z.natAbs

/-- Adds to `r` those of the `k` lowest powers of two, the highest first, with which its square stays at
most `n`. -/
def rootFrom (n : Nat) : Nat → Nat → Nat
  | 0, r => r
  | k + 1, r =>
    let next := r + 1 <<< k
    rootFrom n k (if next * next ≤ n then next else r)

/-- The square root of `n`, cut to a whole number. -/
def floorRoot (n : Nat) : Nat := rootFrom n (n.log2 + 1) 0

/-- The square root of `n`, rounded. -/
def root (n : Nat) : Nat :=
  let r := floorRoot n
  let e := spare r
  let m := r >>> e
  let mid := (2 * m + 1) <<< e
  settle m (4 * n) (mid * mid) <<< e

/-! ## Signs -/

theorem signed_natCast (n : Nat) : signed n = whole n := by
  cases n with
  | zero => decide
  | succ n => rw [signed, Int.sign_natCast_of_ne_zero (Nat.succ_ne_zero n), Int.natAbs_natCast, Int.one_mul]

theorem signed_neg (z : Int) : signed (-z) = -signed z := by
  rw [signed, signed, Int.sign_neg, Int.natAbs_neg, Int.neg_mul]

/-! ## What is exact -/

/-- Every number below `9007199254740992`, the power of two with exponent 53, has that many digits. -/
theorem whole_of_lt {n : Nat} (h : n < 9007199254740992) : whole n = n := by
  have hspare : spare n = 0 := by
    by_cases h0 : n = 0
    · rw [h0]
      rfl
    · have := (Nat.log2_lt (k := 53) h0).2 h
      rw [spare, precision]
      omega
  simp only [whole, quotient, Nat.div_one, hspare, Nat.shiftLeft_zero, Nat.mul_one]
  rw [settle, if_pos (Nat.lt_succ_self _)]

theorem rootFrom_le {n : Nat} (k r : Nat) (h : r * r ≤ n) : rootFrom n k r * rootFrom n k r ≤ n := by
  induction k generalizing r with
  | zero => exact h
  | succ k ih =>
    refine ih _ ?_
    split
    · assumption
    · exact h

theorem lt_rootFrom {n : Nat} (k r : Nat) (h : n < (r + 1 <<< k) * (r + 1 <<< k)) :
    n < (rootFrom n k r + 1) * (rootFrom n k r + 1) := by
  induction k generalizing r with
  | zero => exact h
  | succ k ih =>
    refine ih _ ?_
    split
    · rwa [Nat.add_assoc, ← Nat.two_mul, ← Nat.shiftLeft_succ]
    · exact Nat.lt_of_not_le ‹_›

theorem floorRoot_le (n : Nat) : floorRoot n * floorRoot n ≤ n := rootFrom_le _ _ (Nat.zero_le n)

theorem lt_floorRoot (n : Nat) : n < (floorRoot n + 1) * (floorRoot n + 1) := by
  refine lt_rootFrom _ _ ?_
  rw [Nat.zero_add, Nat.one_shiftLeft]
  exact Nat.lt_of_lt_of_le Nat.lt_log2_self (Nat.le_mul_self _)

end Chip8.Rounding
