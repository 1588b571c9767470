import Chip8.Area
import Chip8.Proofs.Precision

/-!
# Proofs/Limits — an area with too many cells

`Area.limited` goes from the ratio of the sides to the square of the new height, to that height and to the new
width, and rounds at every step. `Area.Reduction` keeps the four numbers with how they hang together, each
estimate up to a grain and in both directions. The rest is multiplication: the grains add up to far less than
the one cell by which the area was too large.

* `Area.cells_limited_le` — there is room for the cells of a limited area;
* `Area.limited_le` — no side becomes longer;
* `Area.three_le_limited` — an area that is wider than high, but not more than twice, keeps three cells along
  each side.
-/

namespace Chip8.Area

open Rounding

/-- The sides are counted in sixteen bits. -/
structure Counted (a : Area) : Prop where
  width_lt : a.width < UInt16.size
  height_lt : a.height < UInt16.size

/-- The numbers between an area `a` and a smaller one `b` of the same shape: the ratio `r` of the sides, the
square `p` of the new height, the height `t` and the width `v` before they are cut to whole cells. -/
structure Reduction (a b : Area) (r p t v : ℚ) : Prop where
  ratio_pos : 0 < r
  ratio_le : r * a.height ≤ grain * a.width
  le_ratio : a.width ≤ grain * (r * a.height)
  square_le : p * r ≤ grain * maxCells
  le_square : maxCells ≤ grain * (p * r)
  sq_height_le : t ^ 2 ≤ grain ^ 2 * p
  le_sq_height : p ≤ grain ^ 2 * t ^ 2
  width_le : v ≤ grain * (t * r)
  le_width : t * r ≤ grain * v
  floor_height : b.height ≤ t ∧ t < b.height + 1
  floor_width : b.width ≤ v ∧ v < b.width + 1

/-! ## The four steps -/

theorem one_pos : (0 : ℚ) < one := Nat.cast_pos.2 (by decide)

theorem units (n : Nat) : (n : ℚ) = n / one * one := (div_mul_cancel₀ _ one_pos.ne').symm

/-- A quotient in units, when a common factor is left out of both numbers. -/
theorem quotient_units {a b : Nat} {x y c : ℚ} (hc : 0 < c) (hb : 0 < b) (hfull : leastFull * b ≤ a)
    (ha : (a : ℚ) = x * one * c) (hy : (b : ℚ) = y * c) :
    quotient a b / one * y ≤ grain * x ∧ x ≤ grain * (quotient a b / one * y) := by
  have hfull : leastFull ≤ a / b := (Nat.le_div_iff_mul_le hb).2 hfull
  have hpos : 0 < one * c := mul_pos one_pos hc
  have hq : quotient a b / one * y * (one * c) = quotient a b * b := by
    rw [hy]
    nth_rewrite 2 [units (quotient a b)]
    ring
  have ha : x * (one * c) = a := by rw [ha, mul_assoc]
  constructor
  · refine le_of_mul_le_mul_right ?_ hpos
    rw [hq, mul_assoc, ha]
    exact quotient_le hb hfull
  · refine le_of_mul_le_mul_right ?_ hpos
    rw [mul_assoc, hq, ha]
    exact le_quotient hb hfull

/-- A square root in units. -/
theorem root_units {n : Nat} (hfull : leastFull * leastFull ≤ n * one) :
    (root (n * one) / one : ℚ) ^ 2 ≤ grain ^ 2 * (n / one) ∧
      (n / one : ℚ) ≤ grain ^ 2 * (root (n * one) / one : ℚ) ^ 2 := by
  have hpos : (0 : ℚ) < one ^ 2 := pow_pos one_pos 2
  have hn : (n / one : ℚ) * one ^ 2 = (n * one : Nat) := by
    rw [Nat.cast_mul]
    nth_rewrite 2 [units n]
    ring
  have hr : (root (n * one) / one : ℚ) ^ 2 * one ^ 2 = (root (n * one) : ℚ) ^ 2 := by
    rw [← mul_pow, ← units]
  constructor
  · refine le_of_mul_le_mul_right ?_ hpos
    rw [hr, mul_assoc, hn]
    exact sq_root_le hfull
  · refine le_of_mul_le_mul_right ?_ hpos
    rw [hn, mul_assoc, hr]
    exact le_sq_root hfull

theorem grain_le_two : grain ≤ 2 := by norm_num [grain, leastFull]

theorem le_two_mul_of_le_grain {x y : ℚ} (hx : 0 ≤ x) (h : x ≤ grain * y) : x ≤ 2 * y := by
  have hy : 0 ≤ y := le_of_mul_le_mul_left ((mul_zero grain).trans_le (hx.trans h)) grain_pos
  exact h.trans (mul_le_mul_of_nonneg_right grain_le_two hy)

theorem one_eq : (one : ℚ) = 1208925819614629174706176 := by
  have h : one = 1208925819614629174706176 := by decide
  rw [h]
  rfl

theorem leastFull_eq : (leastFull : ℚ) = 4503599627370496 := rfl

theorem maxCells_eq : (maxCells : ℚ) = 65535 := rfl

/-- The ratio of the sides. -/
theorem exists_ratio {W H : Nat} (hW : 0 < W) (hH : 0 < H) (hW' : W ≤ 65536) (hH' : H ≤ 65536) :
    ∃ r : ℚ, quotient (W * one) H = r * one ∧ r * H ≤ grain * W ∧ W ≤ grain * (r * H) ∧
      1 ≤ 131072 * r ∧ r ≤ 131072 := by
  have hW : (1 : ℚ) ≤ W := by exact_mod_cast hW
  have hH₁ : (1 : ℚ) ≤ H := by exact_mod_cast hH
  have hW' : (W : ℚ) ≤ 65536 := by exact_mod_cast hW'
  have hH' : (H : ℚ) ≤ 65536 := by exact_mod_cast hH'
  have hkeep : (leastFull * H : ℚ) ≤ W * one := by
    rw [leastFull_eq, one_eq]
    linarith
  obtain ⟨hr, hr'⟩ := quotient_units (a := W * one) (b := H) (x := W) (y := H) (c := 1) zero_lt_one hH
    (by exact_mod_cast hkeep) (by push_cast; ring) (mul_one _).symm
  refine ⟨_, units _, hr, hr', ?_⟩
  generalize (quotient (W * one) H : ℚ) / one = r at hr hr'
  have hlow : (W : ℚ) ≤ 2 * (r * H) := le_two_mul_of_le_grain (by linarith) hr'
  have hhigh : grain * W ≤ 2 * W := mul_le_mul_of_nonneg_right grain_le_two (by linarith)
  have hr : 0 ≤ r := by
    by_contra hneg
    nlinarith
  constructor <;> nlinarith

/-- The square of the height. -/
theorem exists_square {ρ : Nat} {r : ℚ} (hρ : (ρ : ℚ) = r * one) (hlow : 1 ≤ 131072 * r)
    (hhigh : r ≤ 131072) : ∃ p : ℚ, quotient (maxCells * one * one) ρ = p * one ∧
      p * r ≤ grain * maxCells ∧ maxCells ≤ grain * (p * r) ∧ 1 ≤ 8 * p := by
  have hpos : (0 : ℚ) < ρ := hρ ▸ mul_pos (by linarith) one_pos
  have hkeep : (leastFull * ρ : ℚ) ≤ maxCells * one * one := by
    rw [hρ, leastFull_eq, maxCells_eq, one_eq]
    linarith
  obtain ⟨hp, hp'⟩ := quotient_units (a := maxCells * one * one) (b := ρ) (x := maxCells) (y := r) (c := one)
    one_pos (by exact_mod_cast hpos) (by exact_mod_cast hkeep) (by push_cast; ring) hρ
  refine ⟨_, units _, hp, hp', ?_⟩
  generalize (quotient (maxCells * one * one) ρ : ℚ) / one = p at hp hp'
  have h := le_two_mul_of_le_grain (by norm_num [maxCells_eq]) hp'
  rw [maxCells_eq] at h
  nlinarith

/-- The height. -/
theorem exists_height {q : Nat} {p : ℚ} (hq : (q : ℚ) = p * one) (hlow : 1 ≤ 8 * p) :
    ∃ t : ℚ, root (q * one) = t * one ∧ t ^ 2 ≤ grain ^ 2 * p ∧ p ≤ grain ^ 2 * t ^ 2 ∧ 0 ≤ t := by
  have hkeep : (leastFull * leastFull : ℚ) ≤ q * one := by
    rw [hq, leastFull_eq, one_eq]
    linarith
  have hp : (q : ℚ) / one = p := by rw [hq, mul_div_assoc, div_self one_pos.ne', mul_one]
  obtain ⟨ht, ht'⟩ := root_units (n := q) (by exact_mod_cast hkeep)
  rw [hp] at ht ht'
  exact ⟨_, units _, ht, ht', div_nonneg (Nat.cast_nonneg _) one_pos.le⟩

/-- The width is not too small for 53 digits: its square is about the number of cells times the ratio. -/
theorem one_le_width {p t r : ℚ} (hlow : 1 ≤ 131072 * r) (ht : 0 ≤ t) (hp : maxCells ≤ grain * (p * r))
    (hp' : p ≤ grain ^ 2 * t ^ 2) : 1 ≤ 64 * (t * r) := by
  have hr : 0 < r := by linarith
  have hsq : grain ^ 2 * t ^ 2 ≤ 4 * t ^ 2 := by
    have hgrain : grain ^ 2 ≤ 2 ^ 2 := pow_le_pow_left₀ grain_pos.le grain_le_two 2
    linarith [mul_le_mul_of_nonneg_right hgrain (sq_nonneg t)]
  have hcells : (maxCells : ℚ) ≤ 2 * (p * r) := le_two_mul_of_le_grain (by norm_num [maxCells_eq]) hp
  have hmul : p * r * r ≤ 4 * t ^ 2 * r * r := by gcongr; exact hp'.trans hsq
  refine (one_le_sq_iff₀ (by positivity)).1 ?_
  calc (1 : ℚ) ≤ 2 ^ 9 * (maxCells * r) := by rw [maxCells_eq]; linarith
    _ ≤ 2 ^ 9 * (2 * (p * r) * r) := by gcongr
    _ = 2 ^ 10 * (p * r * r) := by ring
    _ ≤ 2 ^ 10 * (4 * t ^ 2 * r * r) := by gcongr
    _ = (64 * (t * r)) ^ 2 := by ring

/-- The width. -/
theorem exists_width {η ρ : Nat} {t r : ℚ} (hη : (η : ℚ) = t * one) (hρ : (ρ : ℚ) = r * one)
    (hlow : 1 ≤ 64 * (t * r)) : ∃ v : ℚ, quotient (η * ρ) one = v * one ∧ v ≤ grain * (t * r) ∧
      t * r ≤ grain * v := by
  have hkeep : (leastFull * one : ℚ) ≤ η * ρ := by
    rw [hη, hρ, leastFull_eq, one_eq]
    linarith
  obtain ⟨hv, hv'⟩ := quotient_units (a := η * ρ) (b := one) (x := t * r) (y := 1) (c := one) one_pos
    (by decide) (by exact_mod_cast hkeep) (by rw [Nat.cast_mul, hη, hρ]; ring) (one_mul _).symm
  rw [mul_one] at hv hv'
  exact ⟨_, units _, hv, hv'⟩

/-- A number of units, cut to whole ones. -/
theorem floor_units {n : Nat} {x : ℚ} (h : (n : ℚ) = x * one) :
    ((n / one : Nat) : ℚ) ≤ x ∧ x < (n / one : Nat) + 1 := by
  constructor
  · refine le_of_mul_le_mul_right ?_ one_pos
    rw [← h]
    exact_mod_cast Nat.div_mul_le_self n one
  · refine lt_of_mul_lt_mul_right ?_ one_pos.le
    rw [← h, mul_comm]
    exact_mod_cast Nat.lt_mul_div_succ n (by decide : 0 < one)

/-- The steps of `limited`. Each of them keeps 53 digits, because the sides have at most sixteen and a unit is
so small. -/
theorem exists_reduction {a : Area} (ha : a.Counted) (hmany : maxCells < a.width * a.height) :
    ∃ r p t v, Reduction a a.limited r p t v := by
  obtain ⟨W, H⟩ := a
  obtain ⟨hW, hH⟩ := ha
  have hWpos : 0 < W := Nat.pos_of_mul_pos_right (Nat.zero_lt_of_lt hmany)
  have hHpos : 0 < H := Nat.pos_of_mul_pos_left (Nat.zero_lt_of_lt hmany)
  obtain ⟨r, hρ, hr, hr', hlow, hhigh⟩ := exists_ratio hWpos hHpos hW.le hH.le
  obtain ⟨p, hq, hp, hp', hplow⟩ := exists_square hρ hlow hhigh
  obtain ⟨t, hη, ht, ht', htpos⟩ := exists_height hq hplow
  have htr : 1 ≤ 64 * (t * r) := one_le_width hlow htpos hp' ht'
  obtain ⟨v, hω, hv, hv'⟩ := exists_width hη hρ htr
  -- the two sides of `limited` are the height and the width above, in units, cut to whole ones
  have hlimited : limited ⟨W, H⟩ = ⟨_, _⟩ := if_neg (Nat.not_le_of_lt hmany)
  refine ⟨r, p, t, v, by linarith, hr, hr', hp, hp', ht, ht', hv, hv', ?_, ?_⟩
  · rw [hlimited]
    exact floor_units hη
  · rw [hlimited]
    exact floor_units hω

/-! ## What is left -/

variable {a b : Area} {r p t v : ℚ}

namespace Reduction

section

variable (h : Reduction a b r p t v)

include h

theorem height_nonneg : 0 ≤ t := (Nat.cast_nonneg b.height).trans h.floor_height.1

theorem width_nonneg : 0 ≤ v := (Nat.cast_nonneg b.width).trans h.floor_width.1

/-- The square of the height times the ratio is the number of cells there is room for. -/
theorem sq_height_mul_le : t ^ 2 * r ≤ grain ^ 3 * maxCells := by
  have hgrain := grain_pos
  have hr := h.ratio_pos
  calc t ^ 2 * r ≤ grain ^ 2 * p * r := by gcongr; exact h.sq_height_le
    _ = grain ^ 2 * (p * r) := by ring
    _ ≤ grain ^ 2 * (grain * maxCells) := mul_le_mul_of_nonneg_left h.square_le (by positivity)
    _ = grain ^ 3 * maxCells := by ring

theorem le_sq_height_mul : (maxCells : ℚ) ≤ grain ^ 3 * (t ^ 2 * r) := by
  have hgrain := grain_pos
  have hr := h.ratio_pos
  calc (maxCells : ℚ) ≤ grain * (p * r) := h.le_square
    _ ≤ grain * (grain ^ 2 * t ^ 2 * r) := by gcongr; exact h.le_sq_height
    _ = grain ^ 3 * (t ^ 2 * r) := by ring

theorem cells_le : v * t ≤ grain ^ 4 * maxCells := by
  have hgrain := grain_pos
  have ht := h.height_nonneg
  calc v * t ≤ grain * (t * r) * t := mul_le_mul_of_nonneg_right h.width_le ht
    _ = grain * (t ^ 2 * r) := by ring
    _ ≤ grain * (grain ^ 3 * maxCells) := mul_le_mul_of_nonneg_left h.sq_height_mul_le hgrain.le
    _ = grain ^ 4 * maxCells := by ring

/-- The height is at most the height before, if there were too many cells. -/
theorem height_le (hW : 0 < a.width) (hmany : maxCells ≤ a.width * a.height) : t ≤ grain ^ 2 * a.height := by
  have hgrain := grain_pos
  have hW : (0 : ℚ) < a.width := Nat.cast_pos.2 hW
  have hmany : (maxCells : ℚ) ≤ a.width * a.height := by exact_mod_cast hmany
  have hsq : t ^ 2 * a.width ≤ (grain ^ 2 * a.height) ^ 2 * a.width :=
    calc t ^ 2 * a.width ≤ t ^ 2 * (grain * (r * a.height)) := by gcongr; exact h.le_ratio
      _ = grain * a.height * (t ^ 2 * r) := by ring
      _ ≤ grain * a.height * (grain ^ 3 * maxCells) :=
        mul_le_mul_of_nonneg_left h.sq_height_mul_le (by positivity)
      _ ≤ grain * a.height * (grain ^ 3 * (a.width * a.height)) := by gcongr
      _ = (grain ^ 2 * a.height) ^ 2 * a.width := by ring
  exact le_of_sq_le_sq (le_of_mul_le_mul_right hsq hW) (by positivity)

/-- The width is at most the width before, if there were too many cells. -/
theorem width_le_width (hH : 0 < a.height) (hmany : maxCells ≤ a.width * a.height) :
    v ≤ grain ^ 3 * a.width := by
  have hgrain := grain_pos
  have hr := h.ratio_pos
  have ht := h.height_nonneg
  have hv := h.width_nonneg
  have hH : (0 : ℚ) < a.height := Nat.cast_pos.2 hH
  have hmany : (maxCells : ℚ) ≤ a.width * a.height := by exact_mod_cast hmany
  have hsq : v ^ 2 * a.height ≤ (grain ^ 3 * a.width) ^ 2 * a.height :=
    calc v ^ 2 * a.height ≤ (grain * (t * r)) ^ 2 * a.height := by gcongr; exact h.width_le
      _ = grain ^ 2 * ((t ^ 2 * r) * (r * a.height)) := by ring
      _ ≤ grain ^ 2 * ((grain ^ 3 * maxCells) * (grain * a.width)) :=
        mul_le_mul_of_nonneg_left (mul_le_mul h.sq_height_mul_le h.ratio_le (by positivity) (by positivity))
          (by positivity)
      _ ≤ grain ^ 2 * ((grain ^ 3 * (a.width * a.height)) * (grain * a.width)) := by gcongr
      _ = (grain ^ 3 * a.width) ^ 2 * a.height := by ring
  exact le_of_sq_le_sq (le_of_mul_le_mul_right hsq hH) (by positivity)

/-- A height of at least half the width keeps half the square. -/
theorem le_two_mul_sq_height (hH : 0 < a.height) (hflat : a.width ≤ 2 * a.height) :
    (maxCells : ℚ) ≤ 2 * grain ^ 4 * t ^ 2 := by
  have hgrain := grain_pos
  have hH : (0 : ℚ) < a.height := Nat.cast_pos.2 hH
  have hflat : (a.width : ℚ) ≤ 2 * a.height := by exact_mod_cast hflat
  have hr : r ≤ 2 * grain := by
    refine le_of_mul_le_mul_right ?_ hH
    calc r * a.height ≤ grain * a.width := h.ratio_le
      _ ≤ grain * (2 * a.height) := by gcongr
      _ = 2 * grain * a.height := by ring
  calc (maxCells : ℚ) ≤ grain ^ 3 * (t ^ 2 * r) := h.le_sq_height_mul
    _ ≤ grain ^ 3 * (t ^ 2 * (2 * grain)) := by gcongr
    _ = 2 * grain ^ 4 * t ^ 2 := by ring

/-- A width of at least the height keeps the square. -/
theorem le_sq_width (hH : 0 < a.height) (hwide : a.height ≤ a.width) :
    (maxCells : ℚ) ≤ grain ^ 6 * v ^ 2 := by
  have hgrain := grain_pos
  have hr := h.ratio_pos
  have ht := h.height_nonneg
  have hH : (0 : ℚ) < a.height := Nat.cast_pos.2 hH
  have hwide : (a.height : ℚ) ≤ a.width := by exact_mod_cast hwide
  have hr : 1 ≤ grain * r := by
    refine le_of_mul_le_mul_right ?_ hH
    calc 1 * (a.height : ℚ) ≤ a.width := by rwa [one_mul]
      _ ≤ grain * r * a.height := by rw [mul_assoc]; exact h.le_ratio
  calc (maxCells : ℚ) ≤ grain ^ 3 * (t ^ 2 * r) := h.le_sq_height_mul
    _ ≤ grain ^ 3 * (t ^ 2 * r) * (grain * r) := le_mul_of_one_le_right (by positivity) hr
    _ = grain ^ 4 * (t * r) ^ 2 := by ring
    _ ≤ grain ^ 4 * (grain * v) ^ 2 :=
      mul_le_mul_of_nonneg_left (pow_le_pow_left₀ (by positivity) h.le_width 2) (by positivity)
    _ = grain ^ 6 * v ^ 2 := by ring

end

end Reduction

/-- Up to six grains are less than one cell. -/
theorem grain_pow_mul_lt {k : Nat} (hk : k ≤ 6) {x : ℚ} (hx : 0 ≤ x) (hx' : x ≤ 65536) :
    grain ^ k * x < x + 1 := by
  have hone : 1 ≤ grain := by norm_num [grain, leastFull]
  have hsix : 0 ≤ grain ^ 6 - 1 ∧ (grain ^ 6 - 1) * 65536 < 1 := by norm_num [grain, leastFull]
  have hle : grain ^ k * x ≤ grain ^ 6 * x := by gcongr
  have hmul : (grain ^ 6 - 1) * x ≤ (grain ^ 6 - 1) * 65536 := mul_le_mul_of_nonneg_left hx' hsix.1
  linarith

/-- A length whose square is at least nine has three whole cells. -/
theorem three_le_floor {n : Nat} {x : ℚ} (hx : 0 ≤ x) (hsq : 9 ≤ x ^ 2) (hlt : x < n + 1) : 3 ≤ n := by
  have hthree : (3 : ℚ) ≤ x := le_of_sq_le_sq (by linarith) hx
  have : (2 : ℚ) < n := by linarith
  exact_mod_cast this

/-- **There is room for the cells of a limited area.** -/
theorem cells_limited_le (ha : a.Counted) : a.limited.width * a.limited.height ≤ maxCells := by
  rcases Nat.lt_or_ge maxCells (a.width * a.height) with hmany | hfew
  · obtain ⟨r, p, t, v, h⟩ := exists_reduction ha hmany
    have hlt : (a.limited.width * a.limited.height : ℚ) < maxCells + 1 :=
      calc (a.limited.width * a.limited.height : ℚ) ≤ v * t :=
            mul_le_mul h.floor_width.1 h.floor_height.1 (Nat.cast_nonneg _) h.width_nonneg
        _ ≤ grain ^ 4 * maxCells := h.cells_le
        _ < maxCells + 1 := grain_pow_mul_lt (by decide) (Nat.cast_nonneg _) (by norm_num [maxCells_eq])
    exact Nat.lt_succ_iff.1 (by exact_mod_cast hlt)
  · rwa [limited_of_le hfew]

/-- An area that a limited one holds has few enough cells itself. -/
theorem cells_le_of_le_limited (hb : b.Counted) (hwidth : a.width ≤ b.limited.width)
    (hheight : a.height ≤ b.limited.height) : a.width * a.height ≤ maxCells :=
  (Nat.mul_le_mul hwidth hheight).trans (cells_limited_le hb)

/-- **No side becomes longer.** -/
theorem limited_le (ha : a.Counted) : a.limited.width ≤ a.width ∧ a.limited.height ≤ a.height := by
  rcases Nat.lt_or_ge maxCells (a.width * a.height) with hmany | hfew
  · have hW : 0 < a.width := Nat.pos_of_mul_pos_right (Nat.zero_lt_of_lt hmany)
    have hH : 0 < a.height := Nat.pos_of_mul_pos_left (Nat.zero_lt_of_lt hmany)
    have hW' : (a.width : ℚ) ≤ 65536 := by exact_mod_cast ha.width_lt.le
    have hH' : (a.height : ℚ) ≤ 65536 := by exact_mod_cast ha.height_lt.le
    obtain ⟨r, p, t, v, h⟩ := exists_reduction ha hmany
    constructor
    · have hlt : (a.limited.width : ℚ) < a.width + 1 :=
        (h.floor_width.1.trans (h.width_le_width hH hmany.le)).trans_lt
          (grain_pow_mul_lt (by decide) (Nat.cast_nonneg _) hW')
      exact Nat.lt_succ_iff.1 (by exact_mod_cast hlt)
    · have hlt : (a.limited.height : ℚ) < a.height + 1 :=
        (h.floor_height.1.trans (h.height_le hW hmany.le)).trans_lt
          (grain_pow_mul_lt (by decide) (Nat.cast_nonneg _) hH')
      exact Nat.lt_succ_iff.1 (by exact_mod_cast hlt)
  · rw [limited_of_le hfew]
    exact ⟨le_rfl, le_rfl⟩

/-- **An area of a common shape does not shrink to nothing.** -/
theorem three_le_limited (ha : a.Counted) (hthree : 3 ≤ a.height) (hwide : a.height ≤ a.width)
    (hflat : a.width ≤ 2 * a.height) : 3 ≤ a.limited.width ∧ 3 ≤ a.limited.height := by
  rcases Nat.lt_or_ge maxCells (a.width * a.height) with hmany | hfew
  · obtain ⟨r, p, t, v, h⟩ := exists_reduction ha hmany
    have hsix : grain ^ 6 ≤ 2 := by norm_num [grain, leastFull]
    have hfour : 2 * grain ^ 4 ≤ 4 := by norm_num [grain, leastFull]
    have hv : (maxCells : ℚ) ≤ 2 * v ^ 2 :=
      (h.le_sq_width (by omega) hwide).trans (mul_le_mul_of_nonneg_right hsix (sq_nonneg v))
    have ht : (maxCells : ℚ) ≤ 4 * t ^ 2 :=
      (h.le_two_mul_sq_height (by omega) hflat).trans (mul_le_mul_of_nonneg_right hfour (sq_nonneg t))
    rw [maxCells_eq] at hv ht
    exact ⟨three_le_floor h.width_nonneg (by linarith) h.floor_width.2,
      three_le_floor h.height_nonneg (by linarith) h.floor_height.2⟩
  · rw [limited_of_le hfew]
    exact ⟨hthree.trans hwide, hthree⟩

end Chip8.Area
