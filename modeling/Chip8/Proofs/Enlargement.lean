import Chip8.Plane
import Chip8.Proofs.LitCount
import Chip8.Proofs.Precision
import Chip8.Proofs.Rows
import Mathlib.Data.List.Nodup

/-!
# Proofs/Enlargement — every point of the enlarged screen belongs to one pixel

The point at column `X` and row `Y` of the enlarged screen lies on the pixel `(X / scale, Y / scale)`, so the
points of a pixel are those with these quotients (`mem_points`), and a point is listed once because its pixel is
(`Screen.nodup_places`). Lit and dark pixels are all pixels, so the two planes are all points. All this is about
exact coordinates (`Screen.enlarged`); a plane holds them rounded, point by point.

* `Screen.mem_enlarged`, `Screen.nodup_enlarged` — the points of one plane, before rounding;
* `Screen.map_rounded_enlarged` — the sizes up to which rounding changes none;
* `Screen.planes_partition` — when the planes exist, and how they cover the enlarged screen.
-/

namespace Chip8

/-! ## The points of a pixel -/

/-- The point at column `X` and row `Y` of the enlarged screen. -/
def Point.ofColumnRow (X Y : Nat) : Point := ⟨X, -Y⟩

theorem Point.ofColumnRow_inj {X Y X' Y' : Nat} :
    ofColumnRow X Y = ofColumnRow X' Y' ↔ X = X' ∧ Y = Y' := by
  simp only [ofColumnRow, Point.mk.injEq]
  omega

/-- Up to `9007199254740992` columns and rows the coordinates are exact. -/
theorem Point.rounded_ofColumnRow {X Y : Nat} (hX : X < 9007199254740992) (hY : Y < 9007199254740992) :
    (ofColumnRow X Y).rounded = .ofColumnRow X Y := by
  rw [rounded, ofColumnRow, Rounding.signed_neg, Rounding.signed_natCast, Rounding.signed_natCast,
    Rounding.whole_of_lt hX, Rounding.whole_of_lt hY]

/-- Beyond them two points fall together. -/
example : (Point.ofColumnRow 9007199254740993 0).rounded = (Point.ofColumnRow 9007199254740992 0).rounded := by
  decide

/-- The points of a pixel, row by row. -/
def points (scale : Nat) (p : Nat × Nat) : List Point :=
  (List.range (scale * scale)).map fun k => .ofColumnRow (p.1 * scale + k % scale) (p.2 * scale + k / scale)

variable {scale : Nat} {p : Nat × Nat} {q : Point}

theorem pixelPoints_eq_ok {x y : Nat} (h : PixelFits scale x y) :
    pixelPoints scale x y = .ok ((points scale (x, y)).map Point.rounded) := by
  rw [pixelPoints, if_pos h, points, List.map_map]
  refine congrArg Except.ok (List.map_congr_left fun k _ => ?_)
  simp only [Function.comp_apply, Point.ofColumnRow, Nat.cast_add, Nat.cast_mul, Int.natCast_mod,
    Int.natCast_div]

theorem mem_points (hscale : 0 < scale) :
    q ∈ points scale p ↔ ∃ X Y, q = .ofColumnRow X Y ∧ X / scale = p.1 ∧ Y / scale = p.2 := by
  simp only [points, List.mem_map, List.mem_range]
  constructor
  · rintro ⟨k, hk, rfl⟩
    have hcolumn : k % scale < scale := Nat.mod_lt k hscale
    have hrow : k / scale < scale := Nat.div_lt_of_lt_mul hk
    refine ⟨_, _, rfl, ?_, ?_⟩
    · rw [Nat.mul_comm, Nat.mul_add_div hscale, Nat.div_eq_of_lt hcolumn, Nat.add_zero]
    · rw [Nat.mul_comm, Nat.mul_add_div hscale, Nat.div_eq_of_lt hrow, Nat.add_zero]
  · rintro ⟨X, Y, rfl, hX, hY⟩
    refine ⟨Y % scale * scale + X % scale, ?_, ?_⟩
    · exact Grid.index_lt (Nat.mod_lt X hscale) (Nat.mod_lt Y hscale)
    · have hmod : (Y % scale * scale + X % scale) % scale = X % scale := by
        rw [Nat.mul_comm, Nat.mul_add_mod, Nat.mod_mod]
      have hdiv : (Y % scale * scale + X % scale) / scale = Y % scale := by
        rw [Nat.mul_comm, Nat.mul_add_div hscale, Nat.div_eq_of_lt (Nat.mod_lt X hscale), Nat.add_zero]
      rw [hmod, hdiv, ← hX, ← hY, Nat.div_add_mod', Nat.div_add_mod']

theorem nodup_points : (points scale p).Nodup := by
  refine List.Nodup.map_on (fun k _ k' _ heq => ?_) List.nodup_range
  obtain ⟨hmod, hdiv⟩ := Point.ofColumnRow_inj.1 heq
  rw [← Nat.div_add_mod k scale, ← Nat.div_add_mod k' scale, Nat.add_left_cancel hmod,
    Nat.add_left_cancel hdiv]

/-- Two pixels have no point in common. -/
theorem disjoint_points (hscale : 0 < scale) {p' : Nat × Nat} (hne : p ≠ p') :
    (points scale p).Disjoint (points scale p') := by
  intro q hq hq'
  obtain ⟨X, Y, rfl, hX, hY⟩ := (mem_points hscale).1 hq
  obtain ⟨X', Y', heq, hX', hY'⟩ := (mem_points hscale).1 hq'
  obtain ⟨rfl, rfl⟩ := Point.ofColumnRow_inj.1 heq
  exact hne (Prod.ext (hX.symm.trans hX') (hY.symm.trans hY'))

/-! ## The pixels -/

namespace Grid

variable {α : Type} {w h : Nat} {g : Grid α w h}

theorem getElem?_toList {x y : Nat} (hx : x < w) (hy : y < h) :
    g.toList[y * w + x]? = some (g.get x y hx hy) := by
  have hi : y * w + x < g.toList.length := length_toList.symm ▸ index_lt hx hy
  rw [List.getElem?_eq_getElem hi]
  exact congrArg some (Vector.getElem_toList hi)

end Grid

namespace Screen

variable {w h : Nat} {s : Screen w h} {lit : Bool}

/-- A screen with one lit pixel. -/
def single (x y : Nat) : Screen w h := ⟨.ofFn fun x' y' => x' == x && y' == y, true⟩

theorem lit_single {x y x' y' : Nat} (hx : x' < w) (hy : y' < h) :
    (single x y : Screen w h).lit x' y' = (x' == x && y' == y) := by
  rw [← get_eq_lit hx hy, single, Grid.get_ofFn]

theorem lit_single_iff {x y x' y' : Nat} (hx : x' < w) (hy : y' < h) :
    (single x y : Screen w h).lit x' y' = true ↔ x' = x ∧ y' = y := by
  rw [lit_single hx hy, Bool.and_eq_true, beq_iff_eq, beq_iff_eq]

theorem mem_places : p ∈ s.places lit ↔ p.1 < w ∧ p.2 < h ∧ s.lit p.1 p.2 = lit := by
  simp only [places, List.mem_map, List.mem_filter, List.mem_zipIdx_iff_getElem?, beq_iff_eq]
  constructor
  · rintro ⟨⟨bit, i⟩, ⟨hbit, rfl⟩, rfl⟩
    obtain ⟨hi, -⟩ := List.getElem?_eq_some_iff.1 hbit
    rw [Grid.length_toList] at hi
    have hx : i % w < w := Nat.mod_lt i (Nat.pos_of_mul_pos_right (Nat.zero_lt_of_lt hi))
    have hy : i / w < h := Nat.div_lt_of_lt_mul hi
    rw [← Nat.div_add_mod' i w, Grid.getElem?_toList hx hy, get_eq_lit] at hbit
    exact ⟨hx, hy, Option.some.inj hbit⟩
  · rintro ⟨hx, hy, hlit⟩
    refine ⟨(lit, p.2 * w + p.1), ⟨?_, rfl⟩, ?_⟩
    · rw [Grid.getElem?_toList hx hy, get_eq_lit, hlit]
    · have hw : 0 < w := Nat.zero_lt_of_lt hx
      simp only [Nat.mul_comm p.2 w, Nat.mul_add_mod, Nat.mod_eq_of_lt hx, Nat.mul_add_div hw,
        Nat.div_eq_of_lt hx, Nat.add_zero]

theorem nodup_places : (s.places lit).Nodup := by
  have hindex : ((s.pixels.toList.zipIdx.filter fun p => p.1 == lit).map Prod.snd).Nodup :=
    ((List.zipIdx_map_snd 0 s.pixels.toList).symm ▸ List.nodup_range').sublist (List.filter_sublist.map _)
  have hplace : Function.Injective fun i : Nat => (i % w, i / w) := fun i j heq => by
    obtain ⟨hmod, hdiv⟩ := Prod.mk.inj heq
    rw [← Nat.div_add_mod i w, ← Nat.div_add_mod j w, hmod, hdiv]
  have hnodup := hindex.map hplace
  rwa [List.map_map] at hnodup

theorem length_places : (s.places lit).length = s.pixels.toList.count lit := by
  rw [places, List.length_map, ← List.countP_eq_length_filter, List.count]
  conv_rhs => rw [← List.zipIdx_map_fst 0 s.pixels.toList, List.countP_map]
  rfl

/-! ## A plane -/

/-- The exact points of all pixels that are lit, or of all that are dark, pixel by pixel. -/
def enlarged (s : Screen w h) (scale : Nat) (lit : Bool) : List Point := (s.places lit).flatMap (points scale)

theorem mem_enlarged (hscale : 0 < scale) : q ∈ s.enlarged scale lit ↔
    ∃ X < w * scale, ∃ Y < h * scale, q = .ofColumnRow X Y ∧ s.lit (X / scale) (Y / scale) = lit := by
  simp only [enlarged, List.mem_flatMap, mem_places, mem_points hscale]
  constructor
  · rintro ⟨⟨x, y⟩, ⟨hx, hy, hlit⟩, X, Y, rfl, rfl, rfl⟩
    exact ⟨X, (Nat.div_lt_iff_lt_mul hscale).1 hx, Y, (Nat.div_lt_iff_lt_mul hscale).1 hy, rfl, hlit⟩
  · rintro ⟨X, hX, Y, hY, rfl, hlit⟩
    have hx : X / scale < w := (Nat.div_lt_iff_lt_mul hscale).2 hX
    have hy : Y / scale < h := (Nat.div_lt_iff_lt_mul hscale).2 hY
    exact ⟨(X / scale, Y / scale), ⟨hx, hy, hlit⟩, X, Y, rfl, rfl, rfl⟩

theorem ofColumnRow_mem_enlarged (hscale : 0 < scale) {X Y : Nat} (hX : X < w * scale) (hY : Y < h * scale) :
    .ofColumnRow X Y ∈ s.enlarged scale lit ↔ s.lit (X / scale) (Y / scale) = lit := by
  rw [mem_enlarged hscale]
  constructor
  · rintro ⟨X', -, Y', -, heq, hlit⟩
    obtain ⟨rfl, rfl⟩ := Point.ofColumnRow_inj.1 heq
    exact hlit
  · exact fun hlit => ⟨X, hX, Y, hY, rfl, hlit⟩

theorem nodup_enlarged (hscale : 0 < scale) : (s.enlarged scale lit).Nodup :=
  List.nodup_flatMap.2 ⟨fun _ _ => nodup_points, nodup_places.imp fun hne => disjoint_points hscale hne⟩

theorem length_enlarged : (s.enlarged scale lit).length = scale * scale * s.pixels.toList.count lit := by
  have hpixel : ∀ p ∈ s.places lit, (points scale p).length = scale * scale := fun p _ => by
    rw [points, List.length_map, List.length_range]
  rw [enlarged, List.length_flatMap, List.map_congr_left hpixel, List.map_const', List.sum_replicate_nat,
    length_places, Nat.mul_comm]

/-- Up to sides of `9007199254740992` points rounding changes none. -/
theorem map_rounded_enlarged (hscale : 0 < scale) (hcolumns : w * scale ≤ 9007199254740992)
    (hrows : h * scale ≤ 9007199254740992) : (s.enlarged scale lit).map Point.rounded = s.enlarged scale lit := by
  refine (List.map_congr_left fun q hq => ?_).trans (List.map_id _)
  obtain ⟨X, hX, Y, hY, rfl, -⟩ := (mem_enlarged hscale).1 hq
  exact Point.rounded_ofColumnRow (hX.trans_le hcolumns) (hY.trans_le hrows)

/-- A plane exists when the points of all its pixels fit, and only then. -/
theorem plane_eq_ok (hfits : ∀ p ∈ s.places lit, PixelFits scale p.1 p.2) :
    s.plane scale lit = .ok ((s.enlarged scale lit).map Point.rounded) := by
  rw [plane, mapM_eq_ok fun p hp => pixelPoints_eq_ok (hfits p hp), enlarged, List.map_flatMap, List.flatMap_def]
  rfl

theorem fits_of_plane_eq_ok {qs : List Point} (h : s.plane scale lit = .ok qs) :
    ∀ p ∈ s.places lit, PixelFits scale p.1 p.2 := by
  intro p hp
  cases hrun : (s.places lit).mapM fun p : Nat × Nat => pixelPoints scale p.1 p.2 with
  | error f =>
    rw [plane, hrun] at h
    cases h
  | ok pixels =>
    obtain ⟨points, hpoints⟩ := ok_of_mapM_eq_ok hrun p hp
    by_contra hnot
    rw [pixelPoints, if_neg hnot] at hpoints
    cases hpoints

theorem eq_of_plane_eq_ok {qs : List Point} (h : s.plane scale lit = .ok qs) :
    qs = (s.enlarged scale lit).map Point.rounded :=
  Except.ok.inj (h.symm.trans (plane_eq_ok (fits_of_plane_eq_ok h)))

/-- Both planes exist when the points of the last pixel fit, and when there is no pixel. -/
theorem planes_exist_iff :
    (∃ on off, s.plane scale true = .ok on ∧ s.plane scale false = .ok off) ↔
      w = 0 ∨ h = 0 ∨
        scale * scale < UInt64.size ∧ w * scale ≤ UInt64.size ∧ h * scale ≤ UInt64.size := by
  constructor
  · rintro ⟨on, off, hon, hoff⟩
    rcases Nat.eq_zero_or_pos w with hw | hw
    · exact .inl hw
    rcases Nat.eq_zero_or_pos h with hh | hh
    · exact .inr (.inl hh)
    -- the last pixel is in one of the planes, and no other one has points further out
    have hlast : PixelFits scale (w - 1) (h - 1) := by
      have hmem : (w - 1, h - 1) ∈ s.places (s.lit (w - 1) (h - 1)) :=
        mem_places.2 ⟨Nat.sub_one_lt hw.ne', Nat.sub_one_lt hh.ne', rfl⟩
      cases hlit : s.lit (w - 1) (h - 1) with
      | true => exact fits_of_plane_eq_ok hon _ (hlit ▸ hmem)
      | false => exact fits_of_plane_eq_ok hoff _ (hlit ▸ hmem)
    rw [PixelFits, Nat.sub_add_cancel hw, Nat.sub_add_cancel hh] at hlast
    exact .inr (.inr hlast)
  · intro hroom
    have hfits : ∀ lit, ∀ p ∈ s.places lit, PixelFits scale p.1 p.2 := by
      intro lit p hp
      obtain ⟨hx, hy, -⟩ := mem_places.1 hp
      obtain ⟨hpoints, hcolumns, hrows⟩ := (hroom.resolve_left (by omega)).resolve_left (by omega)
      exact ⟨hpoints, (Nat.mul_le_mul_right scale hx).trans hcolumns, (Nat.mul_le_mul_right scale hy).trans hrows⟩
    exact ⟨_, _, plane_eq_ok (hfits true), plane_eq_ok (hfits false)⟩

end Screen

/-! ## Bounds -/

/-- Whether a number lies between the bounds. -/
def Bounds.Contains (b : Bounds) (z : Int) : Prop := b.lo ≤ z ∧ z ≤ b.hi

namespace Resolution

variable {r : Resolution} {n m : Nat} {b : Bounds}

theorem bounds_eq_ok_iff {f : Nat → Bounds} : (do let e ← extent (← r.scaled n); return f e) = .ok b ↔
    0 < n * r.scale ∧ n * r.scale < UInt64.size ∧ f (Rounding.whole (n * r.scale - 1)) = b := by
  simp only [bind_eq_ok_iff, scaled, extent, ite_eq_ok_iff]
  constructor
  · rintro ⟨_, ⟨hfits, rfl⟩, _, ⟨hpos, rfl⟩, hb⟩
    exact ⟨hpos, hfits, Except.ok.inj hb⟩
  · rintro ⟨hpos, hfits, rfl⟩
    exact ⟨_, ⟨hfits, rfl⟩, _, ⟨hpos, rfl⟩, rfl⟩

theorem xBounds_eq_ok_iff : r.xBounds = .ok b ↔ 0 < r.width * r.scale ∧ r.width * r.scale < UInt64.size ∧
    ⟨0, Rounding.whole (r.width * r.scale - 1)⟩ = b :=
  bounds_eq_ok_iff (f := fun e => ⟨0, e⟩)

theorem yBounds_eq_ok_iff : r.yBounds = .ok b ↔ 0 < r.height * r.scale ∧ r.height * r.scale < UInt64.size ∧
    ⟨-Rounding.whole (r.height * r.scale - 1), 0⟩ = b :=
  bounds_eq_ok_iff (f := fun e => ⟨-e, 0⟩)

/-- Both bounds exist when there is a pixel and both sides can be counted, and only then. -/
theorem bounds_exist_iff (hscale : 0 < r.scale) : (∃ xs ys, r.xBounds = .ok xs ∧ r.yBounds = .ok ys) ↔
    0 < r.width ∧ 0 < r.height ∧ r.width * r.scale < UInt64.size ∧ r.height * r.scale < UInt64.size := by
  constructor
  · rintro ⟨xs, ys, hxs, hys⟩
    obtain ⟨hcolumns, hw, -⟩ := xBounds_eq_ok_iff.1 hxs
    obtain ⟨hrows, hh, -⟩ := yBounds_eq_ok_iff.1 hys
    exact ⟨Nat.pos_of_mul_pos_right hcolumns, Nat.pos_of_mul_pos_right hrows, hw, hh⟩
  · rintro ⟨hw, hh, hcolumns, hrows⟩
    exact ⟨_, _, xBounds_eq_ok_iff.2 ⟨Nat.mul_pos hw hscale, hcolumns, rfl⟩,
      yBounds_eq_ok_iff.2 ⟨Nat.mul_pos hh hscale, hrows, rfl⟩⟩

end Resolution

/-! ## The two planes -/

namespace Screen

variable {w h : Nat} {s : Screen w h} {xs ys : Bounds}

/-- The points of both planes, each listed once. -/
theorem nodup_planes (hscale : 0 < scale) : (s.enlarged scale true ++ s.enlarged scale false).Nodup := by
  refine List.nodup_append'.2 ⟨nodup_enlarged hscale, nodup_enlarged hscale, fun q hon hoff => ?_⟩
  obtain ⟨X, -, Y, -, rfl, hlit⟩ := (mem_enlarged hscale).1 hon
  obtain ⟨X', -, Y', -, heq, hdark⟩ := (mem_enlarged hscale).1 hoff
  obtain ⟨rfl, rfl⟩ := Point.ofColumnRow_inj.1 heq
  exact Bool.false_ne_true (hdark.symm.trans hlit)

theorem mem_planes (hscale : 0 < scale) : q ∈ s.enlarged scale true ++ s.enlarged scale false ↔
    ∃ X < w * scale, ∃ Y < h * scale, q = .ofColumnRow X Y := by
  simp only [List.mem_append, mem_enlarged hscale]
  constructor
  · rintro (⟨X, hX, Y, hY, rfl, -⟩ | ⟨X, hX, Y, hY, rfl, -⟩) <;> exact ⟨X, hX, Y, hY, rfl⟩
  · rintro ⟨X, hX, Y, hY, rfl⟩
    cases hlit : s.lit (X / scale) (Y / scale) with
    | true => exact .inl ⟨X, hX, Y, hY, rfl, hlit⟩
    | false => exact .inr ⟨X, hX, Y, hY, rfl, hlit⟩

/-- Rounding the coordinates as the bounds are rounded does not take a point out of them. -/
theorem contains_rounded {X Y : Nat} (hxs : (⟨w, h, scale⟩ : Resolution).xBounds = .ok xs)
    (hys : (⟨w, h, scale⟩ : Resolution).yBounds = .ok ys) (hX : X < w * scale) (hY : Y < h * scale) :
    xs.Contains (Point.ofColumnRow X Y).rounded.x ∧ ys.Contains (Point.ofColumnRow X Y).rounded.y := by
  obtain ⟨-, -, rfl⟩ := Resolution.xBounds_eq_ok_iff.1 hxs
  obtain ⟨-, -, rfl⟩ := Resolution.yBounds_eq_ok_iff.1 hys
  have hcolumn := Rounding.whole_mono (Nat.le_sub_one_of_lt hX)
  have hrow := Rounding.whole_mono (Nat.le_sub_one_of_lt hY)
  simp only [Bounds.Contains, Point.rounded, Point.ofColumnRow, Rounding.signed_neg, Rounding.signed_natCast]
  omega

/-- The bounds hold the points of both planes. -/
theorem contains_of_mem (hscale : 0 < scale) (hxs : (⟨w, h, scale⟩ : Resolution).xBounds = .ok xs)
    (hys : (⟨w, h, scale⟩ : Resolution).yBounds = .ok ys)
    (hq : q ∈ (s.enlarged scale true ++ s.enlarged scale false).map Point.rounded) :
    xs.Contains q.x ∧ ys.Contains q.y := by
  obtain ⟨q, hmem, rfl⟩ := List.mem_map.1 hq
  obtain ⟨X, hX, Y, hY, rfl⟩ := (mem_planes hscale).1 hmem
  exact contains_rounded hxs hys hX hY

/-- **The two planes partition the enlarged screen.** They exist as long as the points of a pixel and both sides
of the enlarged screen can be counted in 64 bits. Of the exact points every one is listed once, among those of its
pixel's plane. The planes hold these points in their order, each coordinate in double precision, as the bounds are;
so the bounds, where they exist, hold all points, and up to sides of `9007199254740992` every coordinate is exact. -/
theorem planes_partition (s : Screen w h) (hscale : 1 ≤ scale) :
    let r : Resolution := ⟨w, h, scale⟩
    let litPoints := s.enlarged scale true
    let darkPoints := s.enlarged scale false
    ((∃ on off, s.plane scale true = .ok on ∧ s.plane scale false = .ok off) ↔
      w = 0 ∨ h = 0 ∨
        scale * scale < UInt64.size ∧ w * scale ≤ UInt64.size ∧ h * scale ≤ UInt64.size) ∧
    ((∃ xs ys, r.xBounds = .ok xs ∧ r.yBounds = .ok ys) ↔
      0 < w ∧ 0 < h ∧ w * scale < UInt64.size ∧ h * scale < UInt64.size) ∧
    (∀ X < w * scale, ∀ Y < h * scale, (litPoints ++ darkPoints).count (.ofColumnRow X Y) = 1 ∧
      (.ofColumnRow X Y ∈ litPoints ↔ s.lit (X / scale) (Y / scale) = true)) ∧
    (∀ q ∈ litPoints ++ darkPoints, ∃ X < w * scale, ∃ Y < h * scale, q = .ofColumnRow X Y) ∧
    ∀ on off, s.plane scale true = .ok on → s.plane scale false = .ok off →
      on = litPoints.map Point.rounded ∧ off = darkPoints.map Point.rounded ∧
      on.length = scale * scale * s.litCount ∧
      (w * scale ≤ 9007199254740992 → h * scale ≤ 9007199254740992 → on = litPoints ∧ off = darkPoints) ∧
      ∀ xs ys, r.xBounds = .ok xs → r.yBounds = .ok ys →
        xs = ⟨0, Rounding.whole (w * scale - 1)⟩ ∧ ys = ⟨-Rounding.whole (h * scale - 1), 0⟩ ∧
        ∀ q ∈ on ++ off, xs.Contains q.x ∧ ys.Contains q.y := by
  intro r litPoints darkPoints
  refine ⟨planes_exist_iff, Resolution.bounds_exist_iff hscale,
    fun X hX Y hY => ⟨?_, ofColumnRow_mem_enlarged hscale hX hY⟩, fun q hq => (mem_planes hscale).1 hq, ?_⟩
  · exact List.count_eq_one_of_mem (nodup_planes hscale) ((mem_planes hscale).2 ⟨X, hX, Y, hY, rfl⟩)
  · intro on off hon hoff
    obtain rfl := eq_of_plane_eq_ok hon
    obtain rfl := eq_of_plane_eq_ok hoff
    refine ⟨rfl, rfl, (List.length_map _).trans length_enlarged, fun hcolumns hrows => ?_, ?_⟩
    · exact ⟨map_rounded_enlarged hscale hcolumns hrows, map_rounded_enlarged hscale hcolumns hrows⟩
    · intro xs ys hxs hys
      obtain ⟨-, -, hcolumns⟩ := Resolution.xBounds_eq_ok_iff.1 hxs
      obtain ⟨-, -, hrows⟩ := Resolution.yBounds_eq_ok_iff.1 hys
      exact ⟨hcolumns.symm, hrows.symm, fun q hq => contains_of_mem hscale hxs hys (List.map_append ▸ hq)⟩

/-- One lit pixel of a small screen, twice enlarged, has four points, and those around it are not among them. -/
theorem planes_partition_pixel :
    let s : Screen 4 2 := .single 1 1
    ∃ on, s.plane 2 true = .ok on ∧ on.length = 4 ∧ .ofColumnRow 3 2 ∈ on ∧ .ofColumnRow 4 2 ∉ on := by
  intro s
  obtain ⟨hexist, -, hpoint, -, hplanes⟩ := planes_partition s (show 1 ≤ 2 by decide)
  obtain ⟨on, off, hon, hoff⟩ := hexist.2 (by decide)
  obtain ⟨-, -, hlength, hexact, -⟩ := hplanes on off hon hoff
  have hcount : s.litCount = 1 := by decide
  obtain ⟨rfl, -⟩ := hexact (by decide) (by decide)
  refine ⟨_, hon, by rw [hlength, hcount], (hpoint 3 (by decide) 2 (by decide)).2.2 (by decide), fun hmem => ?_⟩
  exact absurd ((hpoint 4 (by decide) 2 (by decide)).2.1 hmem) (by decide)

/-- Two pixels enlarged so far that neither the points of a pixel nor the columns can be counted in 64 bits. -/
theorem planes_overflow :
    let s : Screen 2 1 := .new
    let scale := 9223372036854775808
    1 ≤ scale ∧ (¬ ∃ on off, s.plane scale true = .ok on ∧ s.plane scale false = .ok off) ∧
      ¬ ∃ xs, (⟨2, 1, scale⟩ : Resolution).xBounds = .ok xs := by
  intro s scale
  have hplane : s.plane scale false = .error .arithmetic := by decide
  have hbounds : (⟨2, 1, scale⟩ : Resolution).xBounds = .error .arithmetic := by decide
  refine ⟨by decide, ?_, ?_⟩
  · rintro ⟨-, off, -, hoff⟩
    cases hplane.symm.trans hoff
  · rintro ⟨xs, hxs⟩
    cases hbounds.symm.trans hxs

end Screen

end Chip8
