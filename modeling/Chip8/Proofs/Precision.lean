import Chip8.Rounding
import Mathlib.Algebra.Order.Field.Basic
import Mathlib.Algebra.Order.Field.Rat
import Mathlib.Tactic.GCongr
import Mathlib.Tactic.Linarith
import Mathlib.Tactic.NormNum
import Mathlib.Tactic.Ring

/-!
# Proofs/Precision — how far a rounded number is from the exact one

Between two neighbours `m * u` and `(m + 1) * u` of double precision with `m` of 53 digits, every number is
within a ratio of `(m + 1) / m` of either, and so is the one that is chosen. `Rounding.grain` bounds that ratio.
It is the same in both directions, so estimates through several rounded steps multiply up.

* `Rounding.quotient_le`, `Rounding.le_quotient` — a quotient against the exact one;
* `Rounding.sq_root_le`, `Rounding.le_sq_root` — a square root against the number, in squares;
* `Rounding.whole_mono` — rounding keeps the order of whole numbers.
-/

namespace Chip8.Rounding

/-- The least number of 53 binary digits. -/
def leastFull : Nat := 4503599627370496

/-- The greatest ratio between a number of 53 digits and the one before. -/
def grain : ℚ := 1 + 1 / leastFull

theorem grain_pos : 0 < grain := by norm_num [grain, leastFull]

/-! ## Between two neighbours -/

theorem le_settle (m x mid : Nat) : m ≤ settle m x mid := by
  unfold settle
  split <;> [skip; split] <;> omega

theorem settle_le (m x mid : Nat) : settle m x mid ≤ m + 1 := by
  unfold settle
  split <;> [skip; split] <;> omega

/-- The digits that are kept of a number of 53 digits or more are 53. -/
theorem leastFull_le_div {n : Nat} (h : leastFull ≤ n) : leastFull ≤ n / 2 ^ spare n := by
  have hn : n ≠ 0 := by
    rintro rfl
    exact absurd h (by decide)
  have hlog : 52 ≤ n.log2 := (Nat.le_log2 hn).2 h
  have hspare : 52 + spare n = n.log2 := by
    rw [spare, precision]
    omega
  rw [Nat.le_div_iff_mul_le (Nat.two_pow_pos _)]
  calc leastFull * 2 ^ spare n = 2 ^ (52 + spare n) := (Nat.pow_add 2 52 _).symm
    _ = 2 ^ n.log2 := congrArg (2 ^ ·) hspare
    _ ≤ n := Nat.log2_self_le hn

/-- A quotient and its rounded value lie between the same neighbours. -/
theorem exists_neighbours_quotient {a b : Nat} (hb : 0 < b) (h : leastFull ≤ a / b) :
    ∃ m u, leastFull ≤ m ∧ m * u * b ≤ a ∧ a ≤ (m + 1) * u * b ∧
      m * u ≤ quotient a b ∧ quotient a b ≤ (m + 1) * u := by
  have hstep : b <<< spare (a / b) = 2 ^ spare (a / b) * b := by rw [Nat.shiftLeft_eq, Nat.mul_comm]
  have hkept : a / (b <<< spare (a / b)) = a / b / 2 ^ spare (a / b) := by
    rw [hstep, Nat.mul_comm, Nat.div_div_eq_div_mul]
  refine ⟨a / (b <<< spare (a / b)), 2 ^ spare (a / b), hkept ▸ leastFull_le_div h, ?_, ?_, ?_, ?_⟩
  · rw [Nat.mul_assoc, ← hstep]
    exact Nat.div_mul_le_self _ _
  · rw [Nat.mul_assoc, ← hstep, Nat.mul_comm]
    exact Nat.le_of_lt (Nat.lt_mul_div_succ _ (hstep ▸ Nat.mul_pos (Nat.two_pow_pos _) hb))
  · exact (Nat.mul_le_mul_right _ (le_settle _ _ _)).trans_eq (Nat.shiftLeft_eq _ _).symm
  · exact (Nat.shiftLeft_eq _ _).trans_le (Nat.mul_le_mul_right _ (settle_le _ _ _))

/-- A square root and its rounded value lie between the same neighbours. -/
theorem exists_neighbours_root {n : Nat} (h : leastFull * leastFull ≤ n) :
    ∃ m u, leastFull ≤ m ∧ (m * u) * (m * u) ≤ n ∧ n ≤ ((m + 1) * u) * ((m + 1) * u) ∧
      m * u ≤ root n ∧ root n ≤ (m + 1) * u := by
  have hfull : leastFull ≤ floorRoot n := by
    by_contra hlt
    have hle : floorRoot n + 1 ≤ leastFull := by omega
    exact absurd (h.trans_lt (lt_floorRoot n)) (Nat.not_lt_of_le (Nat.mul_le_mul hle hle))
  have hkept : floorRoot n >>> spare (floorRoot n) = floorRoot n / 2 ^ spare (floorRoot n) :=
    Nat.shiftRight_eq_div_pow _ _
  have hlow : floorRoot n >>> spare (floorRoot n) * 2 ^ spare (floorRoot n) ≤ floorRoot n :=
    hkept ▸ Nat.div_mul_le_self _ _
  have hhigh : floorRoot n + 1 ≤ (floorRoot n >>> spare (floorRoot n) + 1) * 2 ^ spare (floorRoot n) := by
    rw [hkept, Nat.mul_comm]
    exact Nat.lt_mul_div_succ _ (Nat.two_pow_pos _)
  refine ⟨floorRoot n >>> spare (floorRoot n), 2 ^ spare (floorRoot n), hkept ▸ leastFull_le_div hfull,
    ?_, ?_, ?_, ?_⟩
  · exact (Nat.mul_le_mul hlow hlow).trans (floorRoot_le n)
  · exact (Nat.le_of_lt (lt_floorRoot n)).trans (Nat.mul_le_mul hhigh hhigh)
  · exact (Nat.mul_le_mul_right _ (le_settle _ _ _)).trans_eq (Nat.shiftLeft_eq _ _).symm
  · exact (Nat.shiftLeft_eq _ _).trans_le (Nat.mul_le_mul_right _ (settle_le _ _ _))

/-! ## Ratios -/

/-- The next number is at most a grain further on. -/
theorem succ_mul_le {m : Nat} (u : Nat) (h : leastFull ≤ m) :
    (((m + 1) * u : Nat) : ℚ) ≤ grain * (m * u : Nat) := by
  have hm : (leastFull : ℚ) ≤ m := Nat.cast_le.2 h
  have hpos : (0 : ℚ) < leastFull := by norm_num [leastFull]
  have hone : 1 ≤ (m : ℚ) / leastFull := (one_le_div hpos).2 hm
  calc (((m + 1) * u : Nat) : ℚ) = (m + 1) * u := by push_cast; rfl
    _ ≤ (m + m / leastFull) * u := by gcongr
    _ = grain * (m * u : Nat) := by rw [grain]; push_cast; ring

section

variable {a b : Nat} (hb : 0 < b) (h : leastFull ≤ a / b)

include hb h

/-- **A rounded quotient is at most a grain too great.** -/
theorem quotient_le : (quotient a b : ℚ) * b ≤ grain * a := by
  obtain ⟨m, u, hm, hlow, -, -, hhigh⟩ := exists_neighbours_quotient hb h
  have hgrain := grain_pos
  calc (quotient a b : ℚ) * b ≤ ((m + 1) * u : Nat) * b := by gcongr
    _ ≤ grain * (m * u : Nat) * b := by gcongr; exact succ_mul_le u hm
    _ = grain * (m * u * b : Nat) := by push_cast; ring
    _ ≤ grain * a := by gcongr

/-- **A rounded quotient is at most a grain too small.** -/
theorem le_quotient : (a : ℚ) ≤ grain * (quotient a b * b) := by
  obtain ⟨m, u, hm, -, hhigh, hlow, -⟩ := exists_neighbours_quotient hb h
  have hgrain := grain_pos
  calc (a : ℚ) ≤ ((m + 1) * u * b : Nat) := by gcongr
    _ = ((m + 1) * u : Nat) * b := by push_cast; ring
    _ ≤ grain * (m * u : Nat) * b := by gcongr; exact succ_mul_le u hm
    _ ≤ grain * (quotient a b) * b := by gcongr
    _ = grain * (quotient a b * b) := by ring

end

section

variable {n : Nat} (h : leastFull * leastFull ≤ n)

include h

/-- **A rounded square root is at most a grain too great.** -/
theorem sq_root_le : (root n : ℚ) ^ 2 ≤ grain ^ 2 * n := by
  obtain ⟨m, u, hm, hlow, -, -, hhigh⟩ := exists_neighbours_root h
  calc (root n : ℚ) ^ 2 ≤ (((m + 1) * u : Nat) : ℚ) ^ 2 := by gcongr
    _ ≤ (grain * (m * u : Nat)) ^ 2 := by gcongr; exact succ_mul_le u hm
    _ = grain ^ 2 * ((m * u) * (m * u) : Nat) := by push_cast; ring
    _ ≤ grain ^ 2 * n := by gcongr

/-- **A rounded square root is at most a grain too small.** -/
theorem le_sq_root : (n : ℚ) ≤ grain ^ 2 * (root n : ℚ) ^ 2 := by
  obtain ⟨m, u, hm, -, hhigh, hlow, -⟩ := exists_neighbours_root h
  have hgrain := grain_pos
  calc (n : ℚ) ≤ (((m + 1) * u) * ((m + 1) * u) : Nat) := by gcongr
    _ = (((m + 1) * u : Nat) : ℚ) ^ 2 := by push_cast; ring
    _ ≤ (grain * (m * u : Nat)) ^ 2 := by gcongr; exact succ_mul_le u hm
    _ ≤ (grain * root n) ^ 2 := by gcongr
    _ = grain ^ 2 * (root n : ℚ) ^ 2 := by ring

end

/-! ## Order -/

/-- The further on a value lies, the less it is settled downward. -/
theorem settle_mono {m x x' : Nat} (mid : Nat) (h : x ≤ x') : settle m x mid ≤ settle m x' mid := by
  unfold settle
  split_ifs <;> omega

theorem spare_mono {n n' : Nat} (h : n ≤ n') : spare n ≤ spare n' := by
  rcases Nat.eq_zero_or_pos n with rfl | hn
  · exact Nat.zero_le _
  · have hlog : n.log2 ≤ n'.log2 := (Nat.le_log2 (by omega)).2 ((Nat.log2_self_le hn.ne').trans h)
    rw [spare, spare]
    omega

theorem div_spare_lt (n : Nat) : n / 2 ^ spare n < 2 * leastFull := by
  rw [Nat.div_lt_iff_lt_mul (Nat.two_pow_pos _)]
  calc n < 2 ^ (n.log2 + 1) := Nat.lt_log2_self
    _ ≤ 2 ^ (53 + spare n) := Nat.pow_le_pow_right (by decide) (by rw [spare, precision]; omega)
    _ = 2 * leastFull * 2 ^ spare n := Nat.pow_add 2 53 _

/-- A whole number, rounded, in terms of the digits that are kept of it. -/
theorem whole_eq (n : Nat) : whole n =
    settle (n / 2 ^ spare n) (2 * n) ((2 * (n / 2 ^ spare n) + 1) * 2 ^ spare n) * 2 ^ spare n := by
  simp only [whole, quotient, Nat.div_one, Nat.shiftLeft_eq, Nat.one_mul]

/-- **Rounding keeps the order of whole numbers.** Two that keep equally many digits are settled on one scale;
otherwise a power of two lies between them. -/
theorem whole_mono {n n' : Nat} (h : n ≤ n') : whole n ≤ whole n' := by
  rcases Nat.eq_or_lt_of_le (spare_mono h) with heq | hlt
  · rw [whole_eq, whole_eq, ← heq]
    refine Nat.mul_le_mul_right _ ?_
    rcases Nat.eq_or_lt_of_le (Nat.div_le_div_right (c := 2 ^ spare n) h) with hm | hm
    · rw [← hm]
      exact settle_mono _ (Nat.mul_le_mul_left 2 h)
    · exact (settle_le _ _ _).trans (hm.trans_le (le_settle _ _ _))
  · have hlog : 53 ≤ n'.log2 := by
      have hpos : 0 < spare n' := by omega
      rw [spare, precision] at hpos
      omega
    have hn' : n' ≠ 0 := by
      rintro rfl
      exact absurd hlog (by decide)
    have hfull : leastFull ≤ n' := (Nat.le_log2 hn').1 (show 52 ≤ n'.log2 by omega)
    calc whole n ≤ (n / 2 ^ spare n + 1) * 2 ^ spare n :=
          (whole_eq n).trans_le (Nat.mul_le_mul_right _ (settle_le _ _ _))
      _ ≤ 2 * leastFull * 2 ^ spare n := Nat.mul_le_mul_right _ (div_spare_lt n)
      _ = leastFull * 2 ^ (spare n + 1) := by rw [Nat.pow_succ, Nat.mul_comm 2, Nat.mul_assoc, Nat.mul_comm 2]
      _ ≤ leastFull * 2 ^ spare n' := Nat.mul_le_mul_left _ (Nat.pow_le_pow_right (by decide) hlt)
      _ ≤ n' / 2 ^ spare n' * 2 ^ spare n' := Nat.mul_le_mul_right _ (leastFull_le_div hfull)
      _ ≤ whole n' := (Nat.mul_le_mul_right _ (le_settle _ _ _)).trans_eq (whole_eq n').symm

end Chip8.Rounding
