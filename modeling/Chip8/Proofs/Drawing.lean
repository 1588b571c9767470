import Chip8.Sprite

/-!
# Proofs/Drawing — a sprite drawn dot by dot is an exclusive or with its image

Drawing flips pixels one after the other, in place. As long as a screen is at least as large as the sprite,
no two dots fall on one pixel, so no flip sees an earlier one: every pixel ends as the exclusive or of what
it was and of the sprite's bit that falls on it (`Screen.overlay`), and the answer is whether a set bit
fell on a pixel lit beforehand (`Screen.collides`).

* `Sprite.covers` — the sprite's image on the torus, without any loop;
* `Screen.draw_eq` — the loop computes it.
-/

namespace Chip8

/-! ## Going round a side of the screen -/

/-- How many steps lead from `a` on to `p` along a side of `size` pixels, where 0 follows the last one. -/
def Screen.distance (size a p : Nat) : Nat := (((p : Int) - a) % size).toNat

namespace Screen

variable {size a p i : Nat}

theorem natCast_distance (h : 0 < size) : (distance size a p : Int) = ((p : Int) - a) % size :=
  Int.toNat_of_nonneg (Int.emod_nonneg _ (by omega))

theorem add_distance (h : p < size) : (a + distance size a p) % size = p := by
  have hpos : 0 < size := by omega
  apply Int.ofNat.inj
  show (((a + distance size a p) % size : Nat) : Int) = p
  rw [Int.natCast_emod, Int.natCast_add, natCast_distance hpos, Int.add_emod_emod,
    show (a : Int) + (p - a) = p by omega]
  exact Int.emod_eq_of_lt (by omega) (by omega)

theorem distance_add (h : i < size) : distance size a ((a + i) % size) = i := by
  have hpos : 0 < size := by omega
  apply Int.ofNat.inj
  show (distance size a ((a + i) % size) : Int) = i
  rw [natCast_distance hpos, Int.natCast_emod, Int.natCast_add, Int.emod_sub_emod,
    show (a : Int) + i - a = i by omega]
  exact Int.emod_eq_of_lt (by omega) (by omega)

end Screen

/-! ## The image of a sprite -/

namespace Sprite

variable {w h vx vy px py : Nat} {sprite : Sprite} {d e : Dot}

/-- The bit at column `i` and row `j`, not set outside the sprite. -/
def bit (sprite : Sprite) (i j : Nat) : Bool := (sprite[j]?.getD 0).getMsbD i

/-- Whether a set bit of the sprite falls on pixel `(px, py)` of a screen of `w` by `h` when its corner is
at `(vx, vy)`. -/
def covers (sprite : Sprite) (w h vx vy px py : Nat) : Bool :=
  sprite.bit (Screen.distance w vx px) (Screen.distance h vy py)

/-- The pixel a dot falls on. -/
def Dot.place (w h vx vy : Nat) (d : Dot) : Nat × Nat := ((vx + d.column) % w, (vy + d.row) % h)

theorem bit_eq_false_of_le {i j : Nat} (h : sprite.length ≤ j) : sprite.bit i j = false := by
  rw [bit, List.getElem?_eq_none h, Option.getD_none]
  exact BitVec.getMsbD_zero

theorem mem_dots : d ∈ sprite.dots ↔
    d.column < 8 ∧ d.row < sprite.length ∧ d.bit = sprite.bit d.column d.row := by
  simp only [dots, List.mem_flatMap, List.mem_map, List.mem_range]
  constructor
  · rintro ⟨⟨row, j⟩, hrow, i, hi, rfl⟩
    obtain ⟨hj, hrow⟩ := List.mem_zipIdx' hrow
    refine ⟨hi, hj, ?_⟩
    simp only [bit, List.getElem?_eq_getElem hj, Option.getD_some, hrow]
  · rintro ⟨hi, hj, hbit⟩
    obtain ⟨i, j, b⟩ := d
    refine ⟨(sprite[j], j), List.mk_mem_zipIdx_iff_getElem?.2 (List.getElem?_eq_getElem hj), i, hi, ?_⟩
    simp only [bit, List.getElem?_eq_getElem hj, Option.getD_some] at hbit
    rw [hbit]

/-- A bound that leaves room for eight columns and all rows holds of every dot. -/
theorem lt_of_mem_dots {size : Nat} (hvx : vx + 8 ≤ size) (hvy : vy + sprite.length ≤ size)
    (hd : d ∈ sprite.dots) : vx + d.column < size ∧ vy + d.row < size := by
  obtain ⟨hi, hj, -⟩ := mem_dots.1 hd
  omega

/-- Dots in different columns or rows of the screen's size fall on different pixels. -/
theorem place_ne (hdw : d.column < w) (hew : e.column < w) (hdh : d.row < h) (heh : e.row < h)
    (hne : d.column ≠ e.column ∨ d.row ≠ e.row) : d.place w h vx vy ≠ e.place w h vx vy := by
  intro heq
  obtain ⟨hx, hy⟩ := Prod.mk.inj heq
  rcases hne with hne | hne
  · exact hne (by rw [← Screen.distance_add (a := vx) hdw, hx, Screen.distance_add hew])
  · exact hne (by rw [← Screen.distance_add (a := vy) hdh, hy, Screen.distance_add heh])

/-- **No two dots fall on one pixel** of a screen that is at least as large as the sprite. -/
theorem pairwise_place (hw : 8 ≤ w) (hh : sprite.length ≤ h) :
    sprite.dots.Pairwise fun d e => d.place w h vx vy ≠ e.place w h vx vy := by
  rw [dots, List.pairwise_flatMap]
  constructor
  · rintro ⟨row, j⟩ hrow
    have hj : j < sprite.length := (List.mem_zipIdx' hrow).1
    rw [List.pairwise_map]
    refine List.pairwise_lt_range.imp_of_mem fun {i i'} hi hi' hlt => ?_
    have hi : i < 8 := List.mem_range.1 hi
    have hi' : i' < 8 := List.mem_range.1 hi'
    exact place_ne (by simp only; omega) (by simp only; omega) (by simp only; omega)
      (by simp only; omega) (.inl (Nat.ne_of_lt hlt))
  · have hrows : sprite.zipIdx.Pairwise fun a b => a.2 < b.2 := by
      rw [← List.pairwise_map (f := Prod.snd) (R := (· < ·)), List.zipIdx_map_snd]
      exact List.pairwise_lt_range'
    refine hrows.imp_of_mem fun {a b} ha hb hlt d hd e he => ?_
    have ha : a.2 < sprite.length := (List.mem_zipIdx' ha).1
    have hb : b.2 < sprite.length := (List.mem_zipIdx' hb).1
    obtain ⟨i, hi, rfl⟩ := List.mem_map.1 hd
    obtain ⟨i', hi', rfl⟩ := List.mem_map.1 he
    have hi : i < 8 := List.mem_range.1 hi
    have hi' : i' < 8 := List.mem_range.1 hi'
    exact place_ne (by simp only; omega) (by simp only; omega) (by simp only; omega)
      (by simp only; omega) (.inr (Nat.ne_of_lt hlt))

/-- A pixel is covered when a dot with a set bit falls on it. -/
theorem covers_iff (hw : 8 ≤ w) (hh : sprite.length ≤ h) (hpx : px < w) (hpy : py < h) :
    sprite.covers w h vx vy px py = true ↔
      ∃ d ∈ sprite.dots, d.bit = true ∧ d.place w h vx vy = (px, py) := by
  constructor
  · intro hc
    have hi : Screen.distance w vx px < 8 := by
      simp only [covers, bit, BitVec.getMsbD, Bool.and_eq_true, decide_eq_true_eq] at hc
      exact hc.1
    have hj : Screen.distance h vy py < sprite.length := by
      rcases Nat.lt_or_ge (Screen.distance h vy py) sprite.length with hj | hj
      · exact hj
      · rw [covers, bit_eq_false_of_le hj] at hc
        cases hc
    let dot : Dot := ⟨Screen.distance w vx px, Screen.distance h vy py, sprite.covers w h vx vy px py⟩
    have hdot : dot ∈ sprite.dots := mem_dots.2 ⟨hi, hj, rfl⟩
    refine ⟨dot, hdot, hc, ?_⟩
    simp only [dot, Dot.place, Screen.add_distance hpx, Screen.add_distance hpy]
  · rintro ⟨d, hd, hbit, hplace⟩
    obtain ⟨hi, hj, hd⟩ := mem_dots.1 hd
    obtain ⟨rfl, rfl⟩ := Prod.mk.inj hplace
    rw [covers, Screen.distance_add (by omega), Screen.distance_add (by omega), ← hd, hbit]

end Sprite

/-! ## Drawing -/

/-- Grids are equal when they agree on every cell. -/
theorem Grid.ext_get {α : Type} {w h : Nat} {g g' : Grid α w h}
    (hget : ∀ x y hx hy, g.get x y hx hy = g'.get x y hx hy) : g = g' := by
  obtain ⟨cells⟩ := g
  obtain ⟨cells'⟩ := g'
  have hcells : cells = cells' := Vector.ext fun i hi => by
    have hw : 0 < w := Nat.pos_of_mul_pos_right (Nat.lt_of_le_of_lt (Nat.zero_le i) hi)
    have hi' := hget (i % w) (i / w) (Nat.mod_lt i hw) (Nat.div_lt_of_lt_mul hi)
    simpa only [get, Nat.div_add_mod' i w] using hi'
  rw [hcells]

namespace Screen

variable {w h vx vy px py x y : Nat} {s : Screen w h} {sprite : Sprite}

/-- Whether there is a lit pixel at `(x, y)`. -/
def lit (s : Screen w h) (x y : Nat) : Bool := (s.pixels.get? x y).getD false

/-- The screen with `bit` laid over the pixel at `q` by exclusive or. -/
def flipped (s : Screen w h) (q : Nat × Nat) (bit : Bool) : Screen w h :=
  { s with pixels := s.pixels.put q.1 q.2 (s.lit q.1 q.2 ^^ bit) }

/-- The screen with the image of a sprite laid over it by exclusive or, and a redraw asked for. -/
def overlay (s : Screen w h) (vx vy : Nat) (sprite : Sprite) : Screen w h where
  pixels := .ofFn fun px py => s.lit px py ^^ sprite.covers w h vx vy px py
  dirty := true

/-- Whether a set bit of the sprite falls on a lit pixel. -/
def collides (s : Screen w h) (vx vy : Nat) (sprite : Sprite) : Bool :=
  (List.range w).any fun px => (List.range h).any fun py =>
    sprite.covers w h vx vy px py && s.lit px py

theorem get_eq_lit (hx : x < w) (hy : y < h) : s.pixels.get x y hx hy = s.lit x y := by
  rw [lit, Grid.get?_eq_some hx hy, Option.getD_some]

theorem lit_new (hx : x < w) (hy : y < h) : (new : Screen w h).lit x y = false := by
  rw [← get_eq_lit hx hy]
  exact Grid.get_fill hx hy

/-- A pixel that is set is read back at its own place, and the others as they were. -/
theorem lit_put (hx : x < w) (hy : y < h) (hpx : px < w) (hpy : py < h) (a dirty : Bool) :
    (⟨s.pixels.put x y a, dirty⟩ : Screen w h).lit px py = if x = px ∧ y = py then a else s.lit px py := by
  rw [Grid.put_eq_set hx hy, ← get_eq_lit hpx hpy, ← get_eq_lit hpx hpy]
  exact Grid.get_set hx hy hpx hpy

theorem lit_overlay (hx : px < w) (hy : py < h) :
    (s.overlay vx vy sprite).lit px py = (s.lit px py ^^ sprite.covers w h vx vy px py) := by
  rw [← get_eq_lit hx hy, overlay, Grid.get_ofFn hx hy]

theorem collides_iff : s.collides vx vy sprite = true ↔
    ∃ px < w, ∃ py < h, sprite.covers w h vx vy px py = true ∧ s.lit px py = true := by
  simp only [collides, List.any_eq_true, List.mem_range, Bool.and_eq_true]

/-- The pixels of two screens are the same when each is lit on both or on neither. -/
theorem pixels_eq_of_lit {s' : Screen w h} (hlit : ∀ x < w, ∀ y < h, s.lit x y = s'.lit x y) :
    s.pixels = s'.pixels := Grid.ext_get fun x y hx hy => by
  rw [get_eq_lit, get_eq_lit, hlit x hx y hy]

/-- Screens are equal when they agree on every pixel and on the redraw. -/
theorem ext_lit {s s' : Screen w h} (hdirty : s.dirty = s'.dirty)
    (hlit : ∀ x < w, ∀ y < h, s.lit x y = s'.lit x y) : s = s' := by
  have hpixels := pixels_eq_of_lit hlit
  obtain ⟨pixels, dirty⟩ := s
  obtain rfl : pixels = s'.pixels := hpixels
  obtain rfl : dirty = s'.dirty := hdirty
  rfl

/-! ### One dot -/

theorem flip_eq (hx : x < w) (hy : y < h) (bit : Bool) :
    s.flip x y bit = .ok (bit && s.lit x y, s.flipped (x, y) bit) := by
  rw [flip, get_eq_ok hx hy, ok_bind, get_eq_lit, set_eq_ok hx hy, ok_bind, flipped, Grid.put_eq_set hx hy]
  rfl

theorem lit_flipped {q : Nat × Nat} (hx : q.1 < w) (hy : q.2 < h) (hpx : px < w) (hpy : py < h)
    (bit : Bool) : (s.flipped q bit).lit px py = (s.lit px py ^^ (bit && q == (px, py))) := by
  rw [flipped, lit_put hx hy hpx hpy]
  by_cases heq : q = (px, py)
  · subst heq
    rw [if_pos ⟨rfl, rfl⟩, beq_self_eq_true, Bool.and_true]
  · rw [if_neg fun hq => heq (Prod.ext hq.1 hq.2), beq_eq_false_iff_ne.2 heq, Bool.and_false,
      Bool.xor_false]

theorem lit_flipped_of_ne {q q' : Nat × Nat} (hx : q.1 < w) (hy : q.2 < h) (hx' : q'.1 < w) (hy' : q'.2 < h)
    (hne : q ≠ q') (bit : Bool) : (s.flipped q bit).lit q'.1 q'.2 = s.lit q'.1 q'.2 := by
  rw [lit_flipped hx hy hx' hy', Prod.eta, beq_eq_false_iff_ne.2 hne, Bool.and_false, Bool.xor_false]

theorem place_fst_lt (hw : 0 < w) (d : Sprite.Dot) : (d.place w h vx vy).1 < w := Nat.mod_lt _ hw

theorem place_snd_lt (hh : 0 < h) (d : Sprite.Dot) : (d.place w h vx vy).2 < h := Nat.mod_lt _ hh

/-- The first dot is drawn at its place, and the others on the screen it leaves. -/
theorem flipDots_cons {d : Sprite.Dot} {dots : List Sprite.Dot} (hw : 0 < w) (hh : 0 < h)
    (hfx : vx + d.column < UInt64.size) (hfy : vy + d.row < UInt64.size) (c : Bool) (s : Screen w h) :
    flipDots vx vy (d :: dots) (c, s) = flipDots vx vy dots
      (c || (d.bit && s.lit (d.place w h vx vy).1 (d.place w h vx vy).2),
        s.flipped (d.place w h vx vy) d.bit) := by
  rw [flipDots, wrap_eq_ok hfx, ok_bind, wrap_eq_ok hfy, ok_bind,
    flip_eq (Nat.mod_lt _ hw) (Nat.mod_lt _ hh), ok_bind]
  rfl

/-! ### All of them -/

/-- **Dots that fall on different pixels are drawn independently**: the answer is about the pixels as they
were, and each pixel is flipped by the dot that falls on it. By induction on the dots; a later dot's pixel
is not the first one's, so it is as it was before. -/
theorem flipDots_eq {dots : List Sprite.Dot} (hw : 0 < w) (hh : 0 < h)
    (hfit : ∀ d ∈ dots, vx + d.column < UInt64.size ∧ vy + d.row < UInt64.size)
    (hne : dots.Pairwise fun d e => d.place w h vx vy ≠ e.place w h vx vy) (c : Bool) (s : Screen w h) :
    ∃ s', flipDots vx vy dots (c, s) =
        .ok (c || dots.any fun d => d.bit && s.lit (d.place w h vx vy).1 (d.place w h vx vy).2, s') ∧
      ∀ px < w, ∀ py < h,
        s'.lit px py = (s.lit px py ^^ dots.any fun d => d.bit && d.place w h vx vy == (px, py)) := by
  induction dots generalizing c s with
  | nil =>
    refine ⟨s, ?_, fun px _ py _ => ?_⟩
    · rw [flipDots, List.any_nil, Bool.or_false]
    · rw [List.any_nil, Bool.xor_false]
  | cons d dots ih =>
    obtain ⟨hd, hne⟩ := List.pairwise_cons.1 hne
    obtain ⟨hfx, hfy⟩ := hfit d List.mem_cons_self
    obtain ⟨s', hrun, hlit⟩ := ih (fun e he => hfit e (List.mem_cons_of_mem d he)) hne
      (c || (d.bit && s.lit (d.place w h vx vy).1 (d.place w h vx vy).2))
      (s.flipped (d.place w h vx vy) d.bit)
    have hflip : ∀ px < w, ∀ py < h, (s.flipped (d.place w h vx vy) d.bit).lit px py =
        (s.lit px py ^^ (d.bit && d.place w h vx vy == (px, py))) := fun px hpx py hpy =>
      lit_flipped (place_fst_lt hw d) (place_snd_lt hh d) hpx hpy d.bit
    refine ⟨s', ?_, fun px hpx py hpy => ?_⟩
    · have hsame : ∀ e ∈ dots, (s.flipped (d.place w h vx vy) d.bit).lit (e.place w h vx vy).1
          (e.place w h vx vy).2 = s.lit (e.place w h vx vy).1 (e.place w h vx vy).2 := fun e he =>
        lit_flipped_of_ne (place_fst_lt hw d) (place_snd_lt hh d) (place_fst_lt hw e) (place_snd_lt hh e)
          (hd e he) d.bit
      have hany : (dots.any fun e => e.bit && (s.flipped (d.place w h vx vy) d.bit).lit
          (e.place w h vx vy).1 (e.place w h vx vy).2) =
            dots.any fun e => e.bit && s.lit (e.place w h vx vy).1 (e.place w h vx vy).2 := by
        rw [Bool.eq_iff_iff, List.any_eq_true, List.any_eq_true]
        exact exists_congr fun e => and_congr_right fun he => by rw [hsame e he]
      rw [flipDots_cons hw hh hfx hfy, hrun, hany, List.any_cons, Bool.or_assoc]
    · rw [hlit px hpx py hpy, hflip px hpx py hpy, List.any_cons, Bool.xor_assoc]
      by_cases heq : d.place w h vx vy = (px, py)
      · -- no later dot falls where this one does
        have hnone : (dots.any fun e => e.bit && e.place w h vx vy == (px, py)) = false := by
          rw [List.any_eq_false]
          intro e he hand
          exact hd e he (heq.trans (eq_of_beq (Bool.and_eq_true_iff.1 hand).2).symm)
        rw [hnone, Bool.xor_false, Bool.or_false]
      · rw [beq_eq_false_iff_ne.2 heq, Bool.and_false, Bool.false_xor, Bool.false_or]

/-- A sprite collides by one of its dots. -/
theorem collides_iff_dots (hw : 8 ≤ w) (hh : sprite.length ≤ h) (hpos : 0 < h) :
    s.collides vx vy sprite = true ↔ ∃ d ∈ sprite.dots, d.bit = true ∧
      s.lit (d.place w h vx vy).1 (d.place w h vx vy).2 = true := by
  rw [collides_iff]
  constructor
  · rintro ⟨px, hpx, py, hpy, hcov, hon⟩
    obtain ⟨d, hd, hbit, hplace⟩ := (Sprite.covers_iff hw hh hpx hpy).1 hcov
    exact ⟨d, hd, hbit, by rw [hplace, hon]⟩
  · rintro ⟨d, hd, hbit, hon⟩
    have hx : (d.place w h vx vy).1 < w := place_fst_lt (by omega) d
    have hy : (d.place w h vx vy).2 < h := place_snd_lt hpos d
    exact ⟨_, hx, _, hy, (Sprite.covers_iff hw hh hx hy).2 ⟨d, hd, hbit, rfl⟩, hon⟩

/-- **Drawing a sprite is an exclusive or with its image**, on a screen at least as large as the sprite. -/
theorem draw_eq (hw : 8 ≤ w) (hh : sprite.length ≤ h) (hpos : 0 < h) (hvx : vx + 8 ≤ UInt64.size)
    (hvy : vy + h ≤ UInt64.size) (s : Screen w h) :
    s.draw vx vy sprite = .ok (s.collides vx vy sprite, s.overlay vx vy sprite) := by
  have hw0 : 0 < w := by omega
  have hfit : ∀ d ∈ sprite.dots, vx + d.column < UInt64.size ∧ vy + d.row < UInt64.size := fun d hd =>
    Sprite.lt_of_mem_dots hvx (by omega) hd
  obtain ⟨s', hrun, hlit⟩ := flipDots_eq hw0 hpos hfit (Sprite.pairwise_place hw hh) false s
  have hcovers : ∀ px < w, ∀ py < h,
      (sprite.dots.any fun d => d.bit && d.place w h vx vy == (px, py)) =
        sprite.covers w h vx vy px py := by
    intro px hpx py hpy
    rw [Bool.eq_iff_iff, Sprite.covers_iff hw hh hpx hpy, List.any_eq_true]
    exact exists_congr fun d => and_congr_right fun _ => by rw [Bool.and_eq_true, beq_iff_eq]
  have hcollides : (sprite.dots.any fun d =>
      d.bit && s.lit (d.place w h vx vy).1 (d.place w h vx vy).2) = s.collides vx vy sprite := by
    rw [Bool.eq_iff_iff, collides_iff_dots hw hh hpos, List.any_eq_true]
    exact exists_congr fun d => and_congr_right fun _ => by rw [Bool.and_eq_true]
  have hoverlay : s'.markDirty = s.overlay vx vy sprite := ext_lit rfl fun x hx y hy => by
    show s'.lit x y = _
    rw [hlit x hx y hy, hcovers x hx y hy, lit_overlay hx hy]
  rw [draw, hrun, ok_bind, hcollides, Bool.false_or, ← hoverlay]
  rfl

end Screen

end Chip8
