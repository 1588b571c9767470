import Chip8.Canvas
import Chip8.Proofs.Enlargement
import Chip8.Proofs.Limits

/-!
# Proofs/Painting — what every cell of the picture shows

The points of a row are spread over its cells in proportion (`Canvas.spread`), and since there are never more
cells than points, every cell is reached. Painting goes over the dark points and then over the lit ones, so the
last colour on a cell is white as soon as one of its points is lit (`Canvas.get_paint`).

* `Canvas.exists_spread`, `Canvas.spread_lt` — no cell is left out, and no point falls outside;
* `Canvas.draw_eq_ok`, `Canvas.draw_eq_error` — the inner cells of a picture, and when there is none;
* `Canvas.draw_covers` — what follows from it about holes and lost pixels.
-/

namespace Chip8

theorem Grid.get_put {α : Type} {w h x y x' y' : Nat} {g : Grid α w h} {a : α} (hx : x' < w) (hy : y' < h) :
    (g.put x y a).get x' y' hx hy = if x = x' ∧ y = y' then a else g.get x' y' hx hy := by
  by_cases hxy : x < w ∧ y < h
  · rw [put_eq_set hxy.1 hxy.2, get_set hxy.1 hxy.2 hx hy]
  · rw [put, dif_neg hxy, if_neg]
    rintro ⟨rfl, rfl⟩
    exact hxy ⟨hx, hy⟩

/-- A cell of the picture: a block, white or black. -/
def Cell.block (white : Bool) : Cell := ⟨'▄', if white then .white else .black, .default⟩

theorem Cell.block_inj {a b : Bool} : block a = block b ↔ a = b := by cases a <;> cases b <;> decide

/-- The bounds of `n` columns of points. -/
def Bounds.ofColumns (n : Nat) : Bounds := ⟨0, (n - 1 : Nat)⟩

/-- The bounds of `n` rows of points. -/
def Bounds.ofRows (n : Nat) : Bounds := ⟨-(n - 1 : Nat), 0⟩

namespace Canvas

/-! ## Points spread over cells -/

/-- The cell among `cells` on which point `k` of `points` falls, when the first and the last point fall on the
first and the last cell. -/
def spread (points cells k : Nat) : Nat := k * (cells - 1) / (points - 1)

variable {points cells k x : Nat}

theorem spread_lt (hcells : 0 < cells) (hk : k < points) : spread points cells k < cells := by
  have hle : k * (cells - 1) ≤ (points - 1) * (cells - 1) := Nat.mul_le_mul_right _ (Nat.le_sub_one_of_lt hk)
  have hdiv : spread points cells k ≤ cells - 1 := Nat.div_le_of_le_mul hle
  omega

/-- As many points as cells fall on one cell each. -/
theorem spread_self (hpoints : 2 ≤ points) : spread points points k = k :=
  Nat.mul_div_cancel k (by omega)

/-- Fewer cells than points draw every point but the first nearer. -/
theorem spread_lt_self (hpoints : 2 ≤ points) (hcells : cells < points) (hk : 0 < k) :
    spread points cells k < k := by
  rw [spread, Nat.div_lt_iff_lt_mul (by omega)]
  exact Nat.mul_lt_mul_of_pos_left (by omega) hk

/-- Every cell is reached: by the first point that is far enough on. -/
theorem exists_spread (hpoints : 2 ≤ points) (hcells : cells ≤ points) (hx : x < cells) :
    ∃ k < points, spread points cells k = x := by
  obtain ⟨P, rfl⟩ : ∃ P, points = P + 1 := ⟨points - 1, by omega⟩
  obtain ⟨d, rfl⟩ : ∃ d, cells = d + 1 := ⟨cells - 1, by omega⟩
  rcases Nat.eq_zero_or_pos d with rfl | hd
  · exact ⟨0, by omega, by rw [spread, Nat.zero_mul, Nat.zero_div]; omega⟩
  have hxd : x * P ≤ d * P := Nat.mul_le_mul_right P (by omega)
  -- the least `k` with `x * P ≤ k * d`: one point less would still fall before cell `x`
  let k := (x * P + d - 1) / d
  have hhigh : k * d ≤ x * P + d - 1 := Nat.div_mul_le_self _ d
  have hlow : x * P + d - 1 < d * (k + 1) := Nat.lt_mul_div_succ _ hd
  have hk : k < P + 1 := by
    refine Nat.lt_of_mul_lt_mul_left (a := d) ?_
    rw [Nat.mul_comm d k, Nat.mul_succ]
    omega
  refine ⟨k, hk, ?_⟩
  rw [Nat.mul_succ, Nat.mul_comm d k] at hlow
  rw [spread, Nat.add_sub_cancel, Nat.add_sub_cancel]
  refine Nat.div_eq_of_lt_le (by omega) ?_
  rw [Nat.succ_mul]
  omega

/-! ## Where points fall -/

/-- The cell of an inner area on which a point falls. -/
def landing (xs ys : Bounds) (w h : Nat) (q : Point) : Nat × Nat :=
  (project (q.x - xs.lo) xs w, project (ys.hi - q.y) ys h)

theorem project_eq {b : Bounds} (hb : b.hi - b.lo = (points - 1 : Nat)) :
    project k b cells = spread points cells k := by
  rw [project, hb, spread]
  exact_mod_cast Int.toNat_natCast _

/-- The points of a row and of a column are spread over the cells. -/
theorem landing_eq (columns rows w h X Y : Nat) :
    landing (.ofColumns columns) (.ofRows rows) w h (.ofColumnRow X Y) =
      (spread columns w X, spread rows h Y) := by
  have hcolumn : (Point.ofColumnRow X Y).x - (Bounds.ofColumns columns).lo = X := sub_zero _
  have hrow : (Bounds.ofRows rows).hi - (Point.ofColumnRow X Y).y = Y := (zero_sub _).trans (neg_neg _)
  have hcolumns : (Bounds.ofColumns columns).hi - (Bounds.ofColumns columns).lo = (columns - 1 : Nat) :=
    sub_zero _
  have hrows : (Bounds.ofRows rows).hi - (Bounds.ofRows rows).lo = (rows - 1 : Nat) :=
    (zero_sub _).trans (neg_neg _)
  rw [landing, hcolumn, hrow, project_eq hcolumns, project_eq hrows]

variable {w h : Nat} {xs ys : Bounds} {color : Color} {qs : List Point} {area : Grid (Option Color) w h}

/-- **A cell that a point falls on has the colour of the points.** The order of the points does not matter, as
they have one colour. -/
theorem get_paint {x y : Nat} (hx : x < w) (hy : y < h) : (paint xs ys color qs area).get x y hx hy =
    if ∃ q ∈ qs, landing xs ys w h q = (x, y) then some color else area.get x y hx hy := by
  induction qs generalizing area with
  | nil => exact (if_neg fun ⟨_, hq, _⟩ => absurd hq List.not_mem_nil).symm
  | cons q qs ih =>
    have hstep : paint xs ys color (q :: qs) area =
        paint xs ys color qs (area.put (landing xs ys w h q).1 (landing xs ys w h q).2 (some color)) := rfl
    rw [hstep, ih, Grid.get_put hx hy]
    -- a later point on the cell hides what this one did to it
    by_cases hrest : ∃ q ∈ qs, landing xs ys w h q = (x, y)
    · obtain ⟨q', hq', hland⟩ := hrest
      rw [if_pos ⟨q', hq', hland⟩, if_pos ⟨q', List.mem_cons_of_mem q hq', hland⟩]
    · rw [if_neg hrest]
      refine if_congr ?_ rfl rfl
      rw [← Prod.mk.injEq, Prod.mk.eta, List.exists_mem_cons_iff, or_iff_left hrest]

end Canvas

/-! ## Pictures that can be drawn -/

/-- At least two points along each side, and a box whose sides are counted in sixteen bits. -/
structure Resolution.Drawable (r : Resolution) : Prop where
  two_le_columns : 2 ≤ r.width * r.scale
  two_le_rows : 2 ≤ r.height * r.scale
  columns_lt : 2 + r.width * r.scale < UInt16.size
  rows_lt : 2 + r.height * r.scale < UInt16.size

namespace Resolution.Drawable

variable {r : Resolution}

section

variable (hr : r.Drawable)

include hr

theorem scale_pos : 0 < r.scale :=
  Nat.pos_of_mul_pos_left (Nat.lt_of_lt_of_le Nat.zero_lt_two hr.two_le_columns)

theorem sides_lt : r.width * r.scale < 65534 ∧ r.height * r.scale < 65534 := by
  have hcolumns := hr.columns_lt
  have hrows := hr.rows_lt
  simp only [UInt16.size] at hcolumns hrows
  omega

theorem xBounds_eq : r.xBounds = .ok (.ofColumns (r.width * r.scale)) := by
  have hlow := hr.two_le_columns
  obtain ⟨hhigh, -⟩ := hr.sides_lt
  refine Resolution.xBounds_eq_ok_iff.2 ⟨by omega, by simp only [UInt64.size]; omega, ?_⟩
  rw [Rounding.whole_of_lt (by omega), Bounds.ofColumns]

theorem yBounds_eq : r.yBounds = .ok (.ofRows (r.height * r.scale)) := by
  have hlow := hr.two_le_rows
  obtain ⟨-, hhigh⟩ := hr.sides_lt
  refine Resolution.yBounds_eq_ok_iff.2 ⟨by omega, by simp only [UInt64.size]; omega, ?_⟩
  rw [Rounding.whole_of_lt (by omega), Bounds.ofRows]

theorem pixelFits {x y : Nat} (hx : x < r.width) (hy : y < r.height) : PixelFits r.scale x y := by
  obtain ⟨hwidth, hheight⟩ := hr.sides_lt
  have hcolumns : (x + 1) * r.scale ≤ r.width * r.scale := Nat.mul_le_mul_right r.scale hx
  have hrows : (y + 1) * r.scale ≤ r.height * r.scale := Nat.mul_le_mul_right r.scale hy
  have hscale : r.scale ≤ (x + 1) * r.scale := Nat.le_mul_of_pos_left _ (Nat.succ_pos x)
  have hpoints : r.scale * r.scale ≤ 65536 * 65536 := Nat.mul_le_mul (by omega) (by omega)
  simp only [PixelFits, UInt64.size]
  omega

end

end Resolution.Drawable

namespace Canvas

variable {sw sh scale w h X Y : Nat} {screen : Screen sw sh}

/-- A point of a pixel that is lit, or of one that is dark, falls on the cell at column `X` and row `Y` of an
inner area of `w` by `h` cells. -/
def Falls (screen : Screen sw sh) (scale : Nat) (lit : Bool) (w h X Y : Nat) : Prop :=
  ∃ px < sw * scale, ∃ py < sh * scale, screen.lit (px / scale) (py / scale) = lit ∧
    spread (sw * scale) w px = X ∧ spread (sh * scale) h py = Y

instance (lit : Bool) : Decidable (Falls screen scale lit w h X Y) :=
  inferInstanceAs (Decidable (∃ px < sw * scale, ∃ py < sh * scale, _ ∧ _))

section

variable (hr : (⟨sw, sh, scale⟩ : Resolution).Drawable)

include hr

theorem falls_iff {lit : Bool} : Falls screen scale lit w h X Y ↔ ∃ q ∈ screen.enlarged scale lit,
    landing (.ofColumns (sw * scale)) (.ofRows (sh * scale)) w h q = (X, Y) := by
  constructor
  · rintro ⟨px, hpx, py, hpy, hlit, rfl, rfl⟩
    exact ⟨.ofColumnRow px py, (Screen.ofColumnRow_mem_enlarged hr.scale_pos hpx hpy).2 hlit, landing_eq ..⟩
  · rintro ⟨q, hq, hland⟩
    obtain ⟨px, hpx, py, hpy, rfl, hlit⟩ := (Screen.mem_enlarged hr.scale_pos).1 hq
    rw [landing_eq, Prod.mk.injEq] at hland
    exact ⟨px, hpx, py, hpy, hlit, hland⟩

/-- Every cell is reached by a point, lit or dark. -/
theorem exists_falls (screen : Screen sw sh) (hw : w ≤ sw * scale) (hh : h ≤ sh * scale) (hX : X < w)
    (hY : Y < h) : ∃ lit, Falls screen scale lit w h X Y := by
  obtain ⟨px, hpx, hcolumn⟩ := exists_spread hr.two_le_columns hw hX
  obtain ⟨py, hpy, hrow⟩ := exists_spread hr.two_le_rows hh hY
  exact ⟨_, px, hpx, py, hpy, rfl, hcolumn, hrow⟩

theorem paintPixels_eq_ok {xs ys : Bounds} {color : Color} {lit : Bool} {area : Grid (Option Color) w h} :
    paintPixels xs ys color scale (screen.places lit) area =
      .ok (paint xs ys color (screen.enlarged scale lit) area) := by
  have hfits : ∀ p ∈ screen.places lit, PixelFits scale p.1 p.2 := fun p hp => by
    obtain ⟨hx, hy, -⟩ := Screen.mem_places.1 hp
    exact hr.pixelFits hx hy
  obtain ⟨hcolumns, hrows⟩ := hr.sides_lt
  have hexact : (screen.enlarged scale lit).map Point.rounded = screen.enlarged scale lit :=
    Screen.map_rounded_enlarged hr.scale_pos (by dsimp only at hcolumns; omega) (by dsimp only at hrows; omega)
  rw [paintPixels_eq, mapM_eq_ok fun p hp => pixelPoints_eq_ok (hfits p hp), ← hexact, Screen.enlarged,
    List.map_flatMap, List.flatMap_def]
  rfl

/-- The colours of the inner area: white where a lit point falls, and black elsewhere, as a dark one does. -/
theorem innerArea_eq_ok (screen : Screen sw sh) (hw : w ≤ sw * scale) (hh : h ≤ sh * scale) :
    ∃ inner, innerArea screen scale w h = .ok inner ∧ ∀ X Y hX hY,
      inner.get X Y hX hY = some (if Falls screen scale true w h X Y then .white else .black) := by
  have hrun : innerArea screen scale w h =
      .ok (paint (.ofColumns (sw * scale)) (.ofRows (sh * scale)) .white (screen.enlarged scale true)
        (paint (.ofColumns (sw * scale)) (.ofRows (sh * scale)) .black (screen.enlarged scale false)
          (.fill none))) := by
    simp only [innerArea, hr.xBounds_eq, hr.yBounds_eq, ok_bind, paintPixels_eq_ok hr]
  refine ⟨_, hrun, fun X Y hX hY => ?_⟩
  rw [get_paint, get_paint]
  simp only [← falls_iff hr]
  by_cases hlit : Falls screen scale true w h X Y
  · rw [if_pos hlit, if_pos hlit]
  · obtain ⟨lit, hfalls⟩ := exists_falls hr screen hw hh hX hY
    obtain rfl : lit = false := Bool.eq_false_iff.2 fun heq => hlit (heq ▸ hfalls)
    rw [if_neg hlit, if_pos hfalls, if_neg hlit]

end

/-! ## The whole picture -/

/-- The box of a picture on a terminal: what it asks for, both limited to the cells there is room for, as far as
the terminal goes. -/
def box (r : Resolution) (terminal : Area) : Area :=
  (⟨2 + r.width * r.scale, 2 + r.height * r.scale⟩ : Area).limited.common terminal.limited

variable {r : Resolution} {terminal : Area}

theorem boxArea_eq_ok (hr : r.Drawable) : boxArea r = .ok ⟨2 + r.width * r.scale, 2 + r.height * r.scale⟩ := by
  obtain ⟨hcolumns, hrows⟩ := hr.sides_lt
  have hside : ∀ n < 65534, boxSide n = .ok (2 + n) := fun n hn => by
    rw [boxSide, Nat.mod_eq_of_lt (by simp only [UInt16.size]; omega)]
    exact if_pos (by simp only [UInt16.size]; omega)
  have hscaled : ∀ n, n * r.scale < 65534 → r.scaled n = .ok (n * r.scale) := fun n hn =>
    Resolution.scaled_eq_ok (by simp only [UInt64.size]; omega)
  simp only [boxArea, Resolution.scaledWidth, Resolution.scaledHeight, hscaled _ hcolumns, hscaled _ hrows,
    ok_bind, hside _ hcolumns, hside _ hrows]
  rfl

/-- There are never more inner cells along a side than points. -/
theorem inner_le (hr : (⟨sw, sh, scale⟩ : Resolution).Drawable) (terminal : Area) :
    (box ⟨sw, sh, scale⟩ terminal).width - 2 ≤ sw * scale ∧
      (box ⟨sw, sh, scale⟩ terminal).height - 2 ≤ sh * scale := by
  obtain ⟨hwidth, hheight⟩ := Area.limited_le (a := ⟨2 + sw * scale, 2 + sh * scale⟩) ⟨hr.columns_lt, hr.rows_lt⟩
  exact ⟨Nat.sub_le_of_le_add (((Nat.min_le_left _ _).trans hwidth).trans_eq (Nat.add_comm _ _)),
    Nat.sub_le_of_le_add (((Nat.min_le_left _ _).trans hheight).trans_eq (Nat.add_comm _ _))⟩

theorem box_le_terminal (r : Resolution) (terminal : Area) : (box r terminal).width ≤ terminal.limited.width ∧
    (box r terminal).height ≤ terminal.limited.height :=
  ⟨Nat.min_le_right _ _, Nat.min_le_right _ _⟩

/-- A box without an inner cell is not drawn. -/
theorem draw_eq_error (hr : (⟨sw, sh, scale⟩ : Resolution).Drawable) (screen : Screen sw sh)
    (hroom : (box ⟨sw, sh, scale⟩ terminal).width < 3 ∨ (box ⟨sw, sh, scale⟩ terminal).height < 3) :
    draw screen scale terminal = .error .arithmetic := by
  rw [draw, boxArea_eq_ok hr, ok_bind]
  exact if_pos hroom

/-- **The inner cells of a picture.** Each is a block, white if a point of a lit pixel falls on it. -/
theorem draw_eq_ok (hr : (⟨sw, sh, scale⟩ : Resolution).Drawable) (screen : Screen sw sh)
    (hwidth : 3 ≤ (box ⟨sw, sh, scale⟩ terminal).width) (hheight : 3 ≤ (box ⟨sw, sh, scale⟩ terminal).height) :
    let w := (box ⟨sw, sh, scale⟩ terminal).width - 2
    let h := (box ⟨sw, sh, scale⟩ terminal).height - 2
    ∃ cells, draw screen scale terminal = .ok cells ∧ ∀ X < w, ∀ Y < h,
      cells.get? (1 + X) (1 + Y) = some (.block (Falls screen scale true w h X Y)) := by
  intro w h
  obtain ⟨hw, hh⟩ := inner_le hr terminal
  obtain ⟨hw', hh'⟩ := box_le_terminal ⟨sw, sh, scale⟩ terminal
  obtain ⟨inner, hinner, hget⟩ := innerArea_eq_ok hr screen hw hh
  have hdraw : draw screen scale terminal = .ok (.ofFn (boxCell (box ⟨sw, sh, scale⟩ terminal) inner)) := by
    have hroom : ¬ ((box ⟨sw, sh, scale⟩ terminal).width < 3 ∨ (box ⟨sw, sh, scale⟩ terminal).height < 3) := by
      omega
    rw [draw, boxArea_eq_ok hr, ok_bind]
    exact (if_neg hroom).trans
      (congrArg (· >>= fun inner => pure (Grid.ofFn (boxCell (box ⟨sw, sh, scale⟩ terminal) inner))) hinner)
  refine ⟨_, hdraw, fun X hX Y hY => ?_⟩
  rw [Grid.get?_eq_some (by omega) (by omega), Grid.get_ofFn (by omega) (by omega), boxCell,
    if_pos (by omega), if_neg (by omega), Nat.add_sub_cancel_left, Nat.add_sub_cancel_left,
    Grid.get?_eq_some hX hY, hget]
  by_cases hlit : Falls screen scale true w h X Y
  · rw [if_pos hlit, decide_eq_true hlit]
    rfl
  · rw [if_neg hlit, decide_eq_false hlit]
    rfl

/-- A lit pixel leaves a white cell. -/
theorem exists_falls_of_lit (hr : (⟨sw, sh, scale⟩ : Resolution).Drawable) (hw : 0 < w) (hh : 0 < h) {x y : Nat}
    (hx : x < sw) (hy : y < sh) (hlit : screen.lit x y = true) :
    ∃ X < w, ∃ Y < h, Falls screen scale true w h X Y := by
  have hscale : 0 < scale := hr.scale_pos
  have hpx : x * scale < sw * scale := Nat.mul_lt_mul_of_pos_right hx hscale
  have hpy : y * scale < sh * scale := Nat.mul_lt_mul_of_pos_right hy hscale
  refine ⟨_, spread_lt hw hpx, _, spread_lt hh hpy, x * scale, hpx, y * scale, hpy, ?_, rfl, rfl⟩
  rwa [Nat.mul_div_cancel x hscale, Nat.mul_div_cancel y hscale]

theorem Falls.mono (hscale : 0 < scale) {brighter : Screen sw sh}
    (hlit : ∀ x < sw, ∀ y < sh, screen.lit x y = true → brighter.lit x y = true)
    (hfalls : Falls screen scale true w h X Y) : Falls brighter scale true w h X Y := by
  obtain ⟨px, hpx, py, hpy, hon, hland⟩ := hfalls
  exact ⟨px, hpx, py, hpy, hlit _ ((Nat.div_lt_iff_lt_mul hscale).2 hpx) _
    ((Nat.div_lt_iff_lt_mul hscale).2 hpy) hon, hland⟩

/-! ## The machine's screen -/

section

variable {s : Nat} (hs : 1 ≤ s) (hs' : s ≤ 1023)

include hs hs'

theorem drawable_of_scale : (⟨64, 32, s⟩ : Resolution).Drawable :=
  ⟨by dsimp only; omega, by dsimp only; omega, by simp only [UInt16.size]; omega,
    by simp only [UInt16.size]; omega⟩

/-- Only a terminal can make the box too small to be drawn. -/
theorem three_le_box (hwidth : 3 ≤ terminal.limited.width) (hheight : 3 ≤ terminal.limited.height) :
    3 ≤ (box ⟨64, 32, s⟩ terminal).width ∧ 3 ≤ (box ⟨64, 32, s⟩ terminal).height := by
  have hr := drawable_of_scale hs hs'
  obtain ⟨hw, hh⟩ := Area.three_le_limited (a := ⟨2 + 64 * s, 2 + 32 * s⟩) ⟨hr.columns_lt, hr.rows_lt⟩
    (by dsimp only; omega) (by dsimp only; omega) (by dsimp only; omega)
  exact ⟨Nat.le_min.2 ⟨hw, hwidth⟩, Nat.le_min.2 ⟨hh, hheight⟩⟩

/-- **A picture has no holes and loses no lit pixel.** On every terminal with three columns and rows left after
the limit on cells, all points fall inside the inner area of the box. Each cell there is a block, white if a
point of a lit pixel falls on it and black if not; so a lit pixel shows, and lighting more pixels blackens no
cell. -/
theorem draw_covers (hwidth : 3 ≤ terminal.limited.width) (hheight : 3 ≤ terminal.limited.height)
    (screen : Screen 64 32) :
    let r : Resolution := ⟨64, 32, s⟩
    let w := (box r terminal).width - 2
    let h := (box r terminal).height - 2
    ∃ xs ys cells, r.xBounds = .ok xs ∧ r.yBounds = .ok ys ∧ draw screen s terminal = .ok cells ∧
      (∀ px < 64 * s, ∀ py < 32 * s,
        landing xs ys w h (.ofColumnRow px py) = (px * (w - 1) / (64 * s - 1), py * (h - 1) / (32 * s - 1)) ∧
        (landing xs ys w h (.ofColumnRow px py)).1 < w ∧ (landing xs ys w h (.ofColumnRow px py)).2 < h) ∧
      (∀ X < w, ∀ Y < h, ∃ white, cells.get? (1 + X) (1 + Y) = some (.block white) ∧
        (white = true ↔ ∃ px < 64 * s, ∃ py < 32 * s, screen.lit (px / s) (py / s) = true ∧
          landing xs ys w h (.ofColumnRow px py) = (X, Y))) ∧
      ((∃ x < 64, ∃ y < 32, screen.lit x y = true) →
        ∃ X < w, ∃ Y < h, cells.get? (1 + X) (1 + Y) = some (.block true)) ∧
      ∀ brighter : Screen 64 32, (∀ x < 64, ∀ y < 32, screen.lit x y = true → brighter.lit x y = true) →
        ∃ cells', draw brighter s terminal = .ok cells' ∧ ∀ X < w, ∀ Y < h,
          cells.get? (1 + X) (1 + Y) = some (.block true) → cells'.get? (1 + X) (1 + Y) = some (.block true) := by
  intro r w h
  have hr := drawable_of_scale hs hs'
  obtain ⟨hbw, hbh⟩ := three_le_box hs hs' hwidth hheight
  have hw : 0 < w := Nat.sub_pos_of_lt hbw
  have hh : 0 < h := Nat.sub_pos_of_lt hbh
  obtain ⟨cells, hdraw, hcells⟩ := draw_eq_ok hr screen hbw hbh
  refine ⟨_, _, cells, hr.xBounds_eq, hr.yBounds_eq, hdraw, fun px hpx py hpy => ?_, fun X hX Y hY => ?_, ?_, ?_⟩
  · rw [landing_eq]
    exact ⟨rfl, spread_lt hw hpx, spread_lt hh hpy⟩
  · refine ⟨_, hcells X hX Y hY, decide_eq_true_iff.trans ?_⟩
    simp only [Falls, landing_eq, Prod.mk.injEq]
    rfl
  · rintro ⟨x, hx, y, hy, hlit⟩
    obtain ⟨X, hX, Y, hY, hfalls⟩ := exists_falls_of_lit hr hw hh hx hy hlit
    exact ⟨X, hX, Y, hY, by rw [hcells X hX Y hY, decide_eq_true hfalls]⟩
  · intro brighter hlit
    obtain ⟨cells', hdraw', hcells'⟩ := draw_eq_ok hr brighter hbw hbh
    refine ⟨cells', hdraw', fun X hX Y hY hwhite => ?_⟩
    rw [hcells X hX Y hY, Option.some.injEq, Cell.block_inj, decide_eq_true_iff] at hwhite
    rw [hcells' X hX Y hY, decide_eq_true (hwhite.mono hr.scale_pos hlit)]

end

/-- A terminal of the usual size is too small for the picture at scale 2, but the last pixel still shows. -/
theorem draw_covers_corner : ∃ cells, draw (.single 63 31 : Screen 64 32) 2 ⟨80, 24⟩ = .ok cells ∧
    ∃ X < 78, ∃ Y < 22, cells.get? (1 + X) (1 + Y) = some (.block true) := by
  obtain ⟨-, -, cells, -, -, hdraw, -, -, hshown, -⟩ := draw_covers (show 1 ≤ 2 by decide) (by decide)
    (show 3 ≤ (⟨80, 24⟩ : Area).limited.width by decide) (by decide) (.single 63 31)
  exact ⟨cells, hdraw, hshown ⟨63, by decide, 31, by decide, Screen.lit_single (by decide) (by decide)⟩⟩

/-- On a terminal of three rows that are too long, two are left, and no picture fits. -/
theorem draw_fails_flat :
    let terminal : Area := ⟨21846, 3⟩
    3 ≤ terminal.width ∧ 3 ≤ terminal.height ∧ ¬ ∃ cells, draw (.new : Screen 64 32) 1 terminal = .ok cells := by
  have hlimited : (⟨21846, 3⟩ : Area).limited = ⟨21845, 2⟩ := by decide +kernel
  have hr := drawable_of_scale (Nat.le_refl 1) (by decide)
  have hheight : (box ⟨64, 32, 1⟩ ⟨21846, 3⟩).height < 3 :=
    (box_le_terminal ⟨64, 32, 1⟩ ⟨21846, 3⟩).2.trans_lt (by rw [hlimited]; decide)
  refine ⟨by decide, by decide, ?_⟩
  rintro ⟨cells, hdraw⟩
  cases (draw_eq_error hr .new (.inr hheight)).symm.trans hdraw

end Canvas

end Chip8
