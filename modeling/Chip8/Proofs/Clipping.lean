import Chip8.Proofs.Painting

/-!
# Proofs/Clipping — the picture at full size, and on a terminal that is too small

A box of the size asked for has a cell for each point, and then the spreading of the points is the identity
(`Canvas.falls_self_iff`). In a smaller box all points are drawn nearer to the top left corner, rather than left
out at the other end: the point `scale` steps on falls short of its own cell (`Canvas.spread_lt_self`), and there
begins the second pixel.

* `Canvas.draw_full_size` — a terminal that is large enough shows the screen exactly;
* `Canvas.draw_crops_iff` — no other one shows its top left part, for every screen.
-/

namespace Chip8.Canvas

variable {sw sh scale X Y : Nat} {screen : Screen sw sh} {terminal : Area}

/-- The inner cells of the picture show the top left part of the enlarged screen, each of them one point. -/
def Cropped (screen : Screen sw sh) (scale : Nat) (terminal : Area) : Prop :=
  ∃ cells, draw screen scale terminal = .ok cells ∧
    ∀ X < (box ⟨sw, sh, scale⟩ terminal).width - 2, ∀ Y < (box ⟨sw, sh, scale⟩ terminal).height - 2,
      cells.get? (1 + X) (1 + Y) = some (.block (screen.lit (X / scale) (Y / scale)))

section

variable (hr : (⟨sw, sh, scale⟩ : Resolution).Drawable)

include hr

/-- A cell for each point shows its point. -/
theorem falls_self_iff (hX : X < sw * scale) (hY : Y < sh * scale) :
    Falls screen scale true (sw * scale) (sh * scale) X Y ↔ screen.lit (X / scale) (Y / scale) = true := by
  constructor
  · rintro ⟨px, -, py, -, hlit, rfl, rfl⟩
    rwa [spread_self hr.two_le_columns, spread_self hr.two_le_rows]
  · exact fun hlit =>
      ⟨X, hX, Y, hY, hlit, spread_self hr.two_le_columns, spread_self hr.two_le_rows⟩

theorem cropped_iff (hwidth : 3 ≤ (box ⟨sw, sh, scale⟩ terminal).width)
    (hheight : 3 ≤ (box ⟨sw, sh, scale⟩ terminal).height) :
    let w := (box ⟨sw, sh, scale⟩ terminal).width - 2
    let h := (box ⟨sw, sh, scale⟩ terminal).height - 2
    Cropped screen scale terminal ↔
      ∀ X < w, ∀ Y < h, (Falls screen scale true w h X Y ↔ screen.lit (X / scale) (Y / scale) = true) := by
  intro w h
  obtain ⟨cells, hdraw, hcells⟩ := draw_eq_ok hr screen hwidth hheight
  constructor
  · rintro ⟨cells', hdraw', hcells'⟩ X hX Y hY
    obtain rfl := Except.ok.inj (hdraw.symm.trans hdraw')
    have hcell := (hcells X hX Y hY).symm.trans (hcells' X hX Y hY)
    rwa [Option.some.injEq, Cell.block_inj, Bool.eq_iff_iff, decide_eq_true_iff] at hcell
  · refine fun hfalls => ⟨cells, hdraw, fun X hX Y hY => ?_⟩
    rw [hcells X hX Y hY, Option.some.injEq, Cell.block_inj, Bool.eq_iff_iff, decide_eq_true_iff]
    exact hfalls X hX Y hY

/-- A box of the size asked for cuts nothing off. -/
theorem cropped_of_box_eq (screen : Screen sw sh)
    (hbox : box ⟨sw, sh, scale⟩ terminal = ⟨2 + sw * scale, 2 + sh * scale⟩) :
    Cropped screen scale terminal := by
  have hcolumns := hr.two_le_columns
  have hrows := hr.two_le_rows
  dsimp only at hcolumns hrows
  have hwidth : 3 ≤ (box ⟨sw, sh, scale⟩ terminal).width := by rw [hbox]; dsimp only; omega
  have hheight : 3 ≤ (box ⟨sw, sh, scale⟩ terminal).height := by rw [hbox]; dsimp only; omega
  refine (cropped_iff hr hwidth hheight).2 fun X hX Y hY => ?_
  simp only [hbox, Nat.add_sub_cancel_left] at hX hY ⊢
  exact falls_self_iff hr hX hY

/-- A pixel whose first point does not keep its cell is not where it belongs, when no other pixel is lit. -/
theorem not_cropped_single {x y : Nat} (hx : x < sw) (hy : y < sh)
    (hwidth : 3 ≤ (box ⟨sw, sh, scale⟩ terminal).width) (hheight : 3 ≤ (box ⟨sw, sh, scale⟩ terminal).height)
    (hmoved : spread (sw * scale) ((box ⟨sw, sh, scale⟩ terminal).width - 2) (x * scale) < x * scale ∨
      spread (sh * scale) ((box ⟨sw, sh, scale⟩ terminal).height - 2) (y * scale) < y * scale) :
    ¬ Cropped (.single x y : Screen sw sh) scale terminal := by
  obtain ⟨hw, hh⟩ := inner_le hr terminal
  have hscale : 0 < scale := hr.scale_pos
  have hpx : x * scale < sw * scale := Nat.mul_lt_mul_of_pos_right hx hscale
  have hpy : y * scale < sh * scale := Nat.mul_lt_mul_of_pos_right hy hscale
  have hX := spread_lt (Nat.sub_pos_of_lt hwidth) hpx
  have hY := spread_lt (Nat.sub_pos_of_lt hheight) hpy
  have hlit : (.single x y : Screen sw sh).lit (x * scale / scale) (y * scale / scale) = true := by
    rw [Nat.mul_div_cancel x hscale, Nat.mul_div_cancel y hscale]
    exact (Screen.lit_single_iff hx hy).2 ⟨rfl, rfl⟩
  intro hcropped
  have hshown := ((cropped_iff hr hwidth hheight).1 hcropped _ hX _ hY).1
    ⟨x * scale, hpx, y * scale, hpy, hlit, rfl, rfl⟩
  obtain ⟨hcolumn, hrow⟩ := (Screen.lit_single_iff ((Nat.div_lt_iff_lt_mul hscale).2 (hX.trans_le hw))
    ((Nat.div_lt_iff_lt_mul hscale).2 (hY.trans_le hh))).1 hshown
  rcases hmoved with hlt | hlt
  · exact ((Nat.div_lt_iff_lt_mul hscale).2 hlt).ne hcolumn
  · exact ((Nat.div_lt_iff_lt_mul hscale).2 hlt).ne hrow

/-- **Only a box of the size asked for cuts nothing off.** One pixel is enough to see that another does not: the
second of the first row or of the first column. -/
theorem forall_cropped_iff (hsw : 2 ≤ sw) (hsh : 2 ≤ sh) (hwidth : 3 ≤ (box ⟨sw, sh, scale⟩ terminal).width)
    (hheight : 3 ≤ (box ⟨sw, sh, scale⟩ terminal).height) :
    (∀ screen : Screen sw sh, Cropped screen scale terminal) ↔
      box ⟨sw, sh, scale⟩ terminal = ⟨2 + sw * scale, 2 + sh * scale⟩ := by
  refine ⟨fun hcropped => ?_, fun hbox screen => cropped_of_box_eq hr screen hbox⟩
  obtain ⟨hw, hh⟩ := inner_le hr terminal
  have hscale : 0 < 1 * scale := (Nat.one_mul scale).symm ▸ hr.scale_pos
  -- with fewer columns than points the second pixel of the row is drawn on the first, and likewise for rows
  have hwidth' : (box ⟨sw, sh, scale⟩ terminal).width - 2 = sw * scale := by
    by_contra hne
    exact not_cropped_single hr hsw (Nat.zero_lt_of_lt hsh) hwidth hheight
      (.inl (spread_lt_self hr.two_le_columns (Nat.lt_of_le_of_ne hw hne) hscale)) (hcropped _)
  have hheight' : (box ⟨sw, sh, scale⟩ terminal).height - 2 = sh * scale := by
    by_contra hne
    exact not_cropped_single hr (Nat.zero_lt_of_lt hsw) hsh hwidth hheight
      (.inr (spread_lt_self hr.two_le_rows (Nat.lt_of_le_of_ne hh hne) hscale)) (hcropped _)
  rw [← hwidth', ← hheight', Nat.add_sub_of_le (Nat.le_of_lt hwidth), Nat.add_sub_of_le (Nat.le_of_lt hheight)]

end

/-! ## Terminals that are large enough -/

/-- The box has the size asked for if the terminal does: then there is room for its cells. -/
theorem box_eq_iff {r : Resolution} (ht : terminal.Counted) :
    box r terminal = ⟨2 + r.width * r.scale, 2 + r.height * r.scale⟩ ↔
      2 + r.width * r.scale ≤ terminal.limited.width ∧ 2 + r.height * r.scale ≤ terminal.limited.height := by
  constructor
  · intro hbox
    have hle := box_le_terminal r terminal
    rwa [hbox] at hle
  · rintro ⟨hwidth, hheight⟩
    rw [box, Area.limited_of_le (Area.cells_le_of_le_limited ht hwidth hheight), Area.common,
      Nat.min_eq_left hwidth, Nat.min_eq_left hheight]

variable {s : Nat}

/-- **A terminal that is large enough shows the screen exactly.** There is room for its cells up
to scale 5. -/
theorem draw_full_size (hs : 1 ≤ s) (hs' : s ≤ 1023) (ht : terminal.Counted)
    (hwidth : 2 + 64 * s ≤ terminal.limited.width) (hheight : 2 + 32 * s ≤ terminal.limited.height)
    (screen : Screen 64 32) :
    s ≤ 5 ∧ ∃ cells, draw screen s terminal = .ok cells ∧ ∀ X < 64 * s, ∀ Y < 32 * s,
      cells.get? (1 + X) (1 + Y) = some (.block (screen.lit (X / s) (Y / s))) := by
  constructor
  · have hcells : (2 + 64 * s) * (2 + 32 * s) ≤ Area.maxCells :=
      Area.cells_le_of_le_limited (a := ⟨2 + 64 * s, 2 + 32 * s⟩) ht hwidth hheight
    by_contra hlarge
    have hmany : 386 * 194 ≤ (2 + 64 * s) * (2 + 32 * s) := Nat.mul_le_mul (by omega) (by omega)
    exact absurd (hmany.trans hcells) (by decide)
  · have hbox := (box_eq_iff (r := ⟨64, 32, s⟩) ht).2 ⟨hwidth, hheight⟩
    obtain ⟨cells, hdraw, hcells⟩ := cropped_of_box_eq (drawable_of_scale hs hs') screen hbox
    simp only [hbox, Nat.add_sub_cancel_left] at hcells
    exact ⟨cells, hdraw, hcells⟩

/-- The terminal of the least size for scale 1 shows the last pixel in its last inner cell, and only there. -/
theorem draw_full_size_least : ∃ cells, draw (.single 63 31 : Screen 64 32) 1 ⟨66, 34⟩ = .ok cells ∧
    cells.get? 64 32 = some (.block true) ∧ cells.get? 63 32 = some (.block false) := by
  obtain ⟨-, cells, hdraw, hcells⟩ := draw_full_size (Nat.le_refl 1) (by decide)
    (show Area.Counted ⟨66, 34⟩ from ⟨by decide, by decide⟩) (by decide) (by decide) (.single 63 31)
  refine ⟨cells, hdraw, (hcells 63 (by decide) 31 (by decide)).trans ?_,
    (hcells 62 (by decide) 31 (by decide)).trans ?_⟩
  · rw [Screen.lit_single (by decide) (by decide)]
    rfl
  · rw [Screen.lit_single (by decide) (by decide)]
    rfl

/-- A terminal of just the size for scale 6 has more cells than there is room for, and loses the last pixel. -/
theorem draw_loses_corner :
    let terminal : Area := ⟨386, 194⟩
    2 + 64 * 6 ≤ terminal.width ∧ 2 + 32 * 6 ≤ terminal.height ∧
      ¬ ∃ cells, draw (.new : Screen 64 32) 6 terminal = .ok cells ∧ ∀ X < 64 * 6, ∀ Y < 32 * 6,
        cells.get? (1 + X) (1 + Y) = some (.block ((.new : Screen 64 32).lit (X / 6) (Y / 6))) := by
  have hlimited : (⟨386, 194⟩ : Area).limited = ⟨361, 181⟩ := by decide +kernel
  refine ⟨by decide, by decide, ?_⟩
  rintro ⟨cells, -, hcells⟩
  have hcell := hcells 383 (by decide) 191 (by decide)
  rw [Grid.get?, dif_neg (by rw [hlimited]; decide)] at hcell
  cases hcell

/-! ## Terminals that are too small -/

/-- **Only such a terminal shows the top left part of every screen.** On any other, one of the two pixels beside
the first is drawn nearer to it. -/
theorem draw_crops_iff (hs : 1 ≤ s) (hs' : s ≤ 1023) (ht : terminal.Counted)
    (hwidth : 3 ≤ terminal.limited.width) (hheight : 3 ≤ terminal.limited.height) :
    (∀ screen : Screen 64 32, Cropped screen s terminal) ↔
      2 + 64 * s ≤ terminal.limited.width ∧ 2 + 32 * s ≤ terminal.limited.height := by
  obtain ⟨hbw, hbh⟩ := three_le_box hs hs' hwidth hheight
  exact (forall_cropped_iff (drawable_of_scale hs hs') (by decide) (by decide) hbw hbh).trans (box_eq_iff ht)

/-- A terminal of the usual size is not large enough for scale 2. -/
theorem draw_crops_iff_usual : ¬ ∀ screen : Screen 64 32, Cropped screen 2 ⟨80, 24⟩ := by
  rw [draw_crops_iff (by decide) (by decide) ⟨by decide, by decide⟩ (by decide) (by decide)]
  decide

/-- There the last pixel is shown where a pixel should be that is dark. -/
theorem draw_squeezes :
    let screen : Screen 64 32 := .single 63 31
    let terminal : Area := ⟨80, 24⟩
    terminal.width < 2 + 64 * 2 ∧ terminal.height < 2 + 32 * 2 ∧ box ⟨64, 32, 2⟩ terminal = terminal ∧
      ∃ cells, draw screen 2 terminal = .ok cells ∧ cells.get? (1 + 77) (1 + 21) = some (.block true) ∧
        screen.lit (77 / 2) (21 / 2) = false := by
  have hbox : box ⟨64, 32, 2⟩ ⟨80, 24⟩ = ⟨80, 24⟩ := by decide
  obtain ⟨cells, hdraw, hcells⟩ := draw_eq_ok (drawable_of_scale (show 1 ≤ 2 by decide) (by decide))
    (.single 63 31 : Screen 64 32) (show 3 ≤ (box ⟨64, 32, 2⟩ ⟨80, 24⟩).width by decide) (by decide)
  have hfalls : Falls (.single 63 31 : Screen 64 32) 2 true 78 22 77 21 :=
    ⟨127, by decide, 63, by decide, Screen.lit_single (by decide) (by decide), by decide, by decide⟩
  simp only [hbox] at hcells
  refine ⟨by decide, by decide, hbox, cells, hdraw, ?_, Screen.lit_single (by decide) (by decide)⟩
  rw [hcells 77 (by decide) 21 (by decide), decide_eq_true hfalls]

end Chip8.Canvas
