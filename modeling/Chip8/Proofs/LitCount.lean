import Chip8.Proofs.Compositing
import Chip8.Proofs.Shape

/-!
# Proofs/LitCount — how many pixels are lit after a drawing

A set bit lights a dark pixel and darkens a lit one, so there is one lit pixel more or one less
(`Screen.litCount_flipped`). No two dots of a sprite fall on one pixel, so which of the two happens can be read
off the screen before the drawing, and the steps add up (`Screen.litCount_flipDots`). The bits are counted in
memory, row by row (`Machine.setBits`).
-/

namespace Chip8

/-- A choice of one or nothing, as the number of a bit. -/
theorem ite_eq_toNat (b : Bool) : (if b = true then 1 else 0) = b.toNat := (Bool.cond_eq_ite b 1 0).symm

/-! ## Bits of a sprite, counted -/

namespace Sprite

/-- The columns and rows of the bits of `n` bytes, row by row and from left to right. -/
def cells (n : Nat) : List (Nat × Nat) := (List.range n).flatMap fun j => (List.range 8).map fun i => (i, j)

theorem mem_cells {n : Nat} {q : Nat × Nat} : q ∈ cells n ↔ q.1 < 8 ∧ q.2 < n := by
  simp only [cells, List.mem_flatMap, List.mem_map, List.mem_range]
  constructor
  · rintro ⟨j, hj, i, hi, rfl⟩
    exact ⟨hi, hj⟩
  · rintro ⟨hi, hj⟩
    exact ⟨q.2, hj, q.1, hi, rfl⟩

theorem dots_eq (sprite : Sprite) :
    sprite.dots = (cells sprite.length).map fun q => ⟨q.1, q.2, sprite.bit q.1 q.2⟩ := by
  have hrows : sprite.zipIdx = (List.range sprite.length).map fun j => (sprite[j]?.getD 0, j) :=
    List.ext_getElem (by simp only [List.length_zipIdx, List.length_map, List.length_range])
      fun j hj _ => by
        have hj : j < sprite.length := List.length_zipIdx ▸ hj
        simp only [List.getElem_zipIdx, List.getElem_map, List.getElem_range, List.getElem?_eq_getElem hj,
          Option.getD_some, Nat.zero_add]
  rw [dots, hrows, List.flatMap_map, cells, List.map_flatMap]
  simp only [List.map_map]
  rfl

end Sprite

/-! ## One pixel -/

namespace Grid

variable {w h x y : Nat} {g : Grid Bool w h}

/-- A write counts for what it writes, in place of what was there. -/
theorem count_set (hx : x < w) (hy : y < h) (a : Bool) :
    (g.set x y a hx hy).toList.count true + (g.get x y hx hy).toNat = g.toList.count true + a.toNat := by
  have hi : y * w + x < g.toList.length := length_toList.symm ▸ index_lt hx hy
  have hcell : g.toList[y * w + x] = g.get x y hx hy := Vector.getElem_toList hi
  have hcount : (g.set x y a hx hy).toList.count true =
      g.toList.count true - (g.get x y hx hy).toNat + a.toNat := by
    rw [toList, set, Vector.toList_set, ← toList, List.count_set hi, hcell, beq_true, beq_true,
      ite_eq_toNat, ite_eq_toNat]
  have hle : (g.get x y hx hy).toNat ≤ g.toList.count true := by
    cases hget : g.get x y hx hy with
    | false => exact Nat.zero_le _
    | true => exact List.count_pos_iff.2 (hget ▸ hcell ▸ List.getElem_mem hi)
  omega

end Grid

namespace Screen

variable {w h vx vy : Nat} {s : Screen w h} {sprite : Sprite} {dots : List Sprite.Dot}

theorem litCount_le (s : Screen w h) : s.litCount ≤ w * h :=
  Nat.le_trans List.count_le_length (Nat.le_of_eq Grid.length_toList)

/-- **A set bit lights one pixel more, or one less if its pixel was lit.** -/
theorem litCount_flipped {q : Nat × Nat} (hx : q.1 < w) (hy : q.2 < h) (bit : Bool) :
    (s.flipped q bit).litCount + 2 * (bit && s.lit q.1 q.2).toNat = s.litCount + bit.toNat := by
  have hset := Grid.count_set (g := s.pixels) hx hy (s.lit q.1 q.2 ^^ bit)
  have hflip : (s.flipped q bit).litCount =
      (s.pixels.set q.1 q.2 (s.lit q.1 q.2 ^^ bit) hx hy).toList.count true := by
    rw [litCount, flipped, Grid.put_eq_set hx hy]
  have hbits : (s.lit q.1 q.2 ^^ bit).toNat + 2 * (bit && s.lit q.1 q.2).toNat =
      (s.lit q.1 q.2).toNat + bit.toNat := by
    cases s.lit q.1 q.2 <;> cases bit <;> rfl
  rw [get_eq_lit] at hset
  rw [hflip, litCount]
  omega

/-! ## A whole sprite -/

/-- Whether a dot's bit is set and falls on a lit pixel. -/
def hits (s : Screen w h) (vx vy : Nat) (d : Sprite.Dot) : Bool :=
  d.bit && s.lit (d.place w h vx vy).1 (d.place w h vx vy).2

/-- **Dots that fall on different pixels add up.** By induction on the dots: the later ones see their pixels as
they were before the first. -/
theorem litCount_flipDots (hw : 0 < w) (hh : 0 < h)
    (hfit : ∀ d ∈ dots, vx + d.column < UInt64.size ∧ vy + d.row < UInt64.size)
    (hne : dots.Pairwise fun d e => d.place w h vx vy ≠ e.place w h vx vy) (c : Bool) (s : Screen w h) :
    ∃ c' s', flipDots vx vy dots (c, s) = .ok (c', s') ∧
      s'.litCount + 2 * dots.countP (s.hits vx vy) = s.litCount + dots.countP Sprite.Dot.bit := by
  induction dots generalizing c s with
  | nil => exact ⟨c, s, rfl, rfl⟩
  | cons d dots ih =>
    obtain ⟨hd, hne⟩ := List.pairwise_cons.1 hne
    obtain ⟨hfx, hfy⟩ := hfit d List.mem_cons_self
    have hx : ∀ e : Sprite.Dot, (e.place w h vx vy).1 < w := place_fst_lt hw
    have hy : ∀ e : Sprite.Dot, (e.place w h vx vy).2 < h := place_snd_lt hh
    let s₁ := s.flipped (d.place w h vx vy) d.bit
    obtain ⟨c', s', hrun, hcount⟩ := ih (fun e he => hfit e (List.mem_cons_of_mem d he)) hne
      (c || s.hits vx vy d) s₁
    have hfirst : s₁.litCount + 2 * (s.hits vx vy d).toNat = s.litCount + d.bit.toNat :=
      litCount_flipped (hx d) (hy d) d.bit
    have hsame : dots.countP (s₁.hits vx vy) = dots.countP (s.hits vx vy) :=
      List.countP_congr fun e he => by
        rw [hits, hits, lit_flipped_of_ne (hx d) (hy d) (hx e) (hy e) (hd e he)]
    refine ⟨c', s', ?_, ?_⟩
    · rw [flipDots_cons hw hh hfx hfy]
      exact hrun
    · rw [List.countP_cons, List.countP_cons, ite_eq_toNat, ite_eq_toNat]
      omega

/-- A drawing lights one pixel for every set bit, but for those that fall on a lit pixel and darken it. -/
theorem litCount_overlay (hw : 8 ≤ w) (hh : sprite.length ≤ h) (hpos : 0 < h) (hvx : vx + 8 ≤ UInt64.size)
    (hvy : vy + h ≤ UInt64.size) (s : Screen w h) :
    (s.overlay vx vy sprite).litCount + 2 * sprite.dots.countP (s.hits vx vy) =
      s.litCount + sprite.dots.countP Sprite.Dot.bit := by
  have hfit : ∀ d ∈ sprite.dots, vx + d.column < UInt64.size ∧ vy + d.row < UInt64.size := fun d hd =>
    Sprite.lt_of_mem_dots hvx (by omega) hd
  obtain ⟨c', s', hrun, hcount⟩ :=
    litCount_flipDots (by omega) hpos hfit (Sprite.pairwise_place hw hh) false s
  have hdraw : s.draw vx vy sprite = .ok (c', s'.markDirty) := by
    rw [draw, hrun]
    rfl
  rw [draw_eq hw hh hpos hvx hvy] at hdraw
  obtain ⟨-, hoverlay⟩ := Prod.mk.inj (Except.ok.inj hdraw)
  rw [hoverlay]
  exact hcount

theorem collides_iff_countP (hw : 8 ≤ w) (hh : sprite.length ≤ h) (hpos : 0 < h) :
    s.collides vx vy sprite = true ↔ 0 < sprite.dots.countP (s.hits vx vy) := by
  rw [collides_iff_dots hw hh hpos, List.countP_pos_iff]
  exact exists_congr fun d => and_congr_right fun _ => Bool.and_eq_true_iff.symm

end Screen

/-! ## The drawing instruction -/

namespace Machine

variable {κ : Type} {m : Machine κ} {n : Byte}

/-- How many bits are set in the `n` bytes at the index, as far as `p` holds of their column and row. -/
def setBits (m : Machine κ) (n : Byte) (p : Nat → Nat → Bool) : Nat :=
  (Sprite.cells n.toNat).countP fun q =>
    (m.memory.byte (m.registers.index.toNat + q.2)).getLsbD (7 - q.1) && p q.1 q.2

theorem countP_sprite (m : Machine κ) (n : Byte) (p : Nat → Nat → Bool) :
    (m.sprite n).dots.countP (fun d => d.bit && p d.column d.row) = m.setBits n p := by
  have hlen : (m.sprite n).length = n.toNat := Memory.length_block
  rw [Sprite.dots_eq, List.countP_map, hlen]
  refine List.countP_congr fun q hq => ?_
  obtain ⟨hi, hj⟩ := Sprite.mem_cells.1 hq
  rw [Function.comp_apply, m.bit_sprite hi hj]

/-- **Every set bit lights a pixel or darkens one.** With the corner `(a, b)` read from registers `x` and `y`,
the drawing lights as many pixels as the sprite has set bits, less two for each that falls on a lit pixel. So the
flag register ends as 0 exactly if all set bits add up, and there are never more than 2048 lit pixels. -/
theorem execute_draw_litCount [Keypad κ] {x y : Nat} (hx : x < 16) (hy : y < 16) (hn : n.toNat < 16)
    (hin : m.registers.index.toNat + n.toNat ≤ 4096) :
    let a := (m.registers.byte x).toNat
    let b := (m.registers.byte y).toNat
    let bits := m.setBits n fun _ _ => true
    let erased := m.setBits n fun i j => m.screen.lit ((a + i) % 64) ((b + j) % 32)
    ∃ m', execute (.draw x y n) m = .ok .next m' ∧
      m'.screen.litCount + 2 * erased = m.screen.litCount + bits ∧
      (m'.registers.flag = 0 ↔ m'.screen.litCount = m.screen.litCount + bits) ∧
      m.screen.litCount ≤ 2048 ∧ m'.screen.litCount ≤ 2048 := by
  intro a b bits erased
  have hrows : (m.sprite n).length ≤ screenHeight := by
    rw [sprite, Memory.length_block, screenHeight]
    omega
  have ha : a < 256 := (m.registers.byte x).isLt
  have hb : b < 256 := (m.registers.byte y).isLt
  have hbits : (m.sprite n).dots.countP Sprite.Dot.bit = bits :=
    (List.countP_congr fun d _ => by rw [Bool.and_true]).trans (m.countP_sprite n fun _ _ => true)
  have herased : (m.sprite n).dots.countP (m.screen.hits a b) = erased :=
    m.countP_sprite n fun i j => m.screen.lit ((a + i) % 64) ((b + j) % 32)
  have hcount := Screen.litCount_overlay (by decide) hrows (by decide)
    (show a + 8 ≤ UInt64.size by simp only [UInt64.size]; omega)
    (show b + screenHeight ≤ UInt64.size by simp only [UInt64.size, screenHeight]; omega) m.screen
  have hcollides : m.screen.collides a b (m.sprite n) = true ↔
      0 < (m.sprite n).dots.countP (m.screen.hits a b) :=
    Screen.collides_iff_countP (by decide) hrows (by decide)
  rw [herased] at hcount hcollides
  rw [hbits] at hcount
  refine ⟨_, execute_accepted ⟨hx, hy, hn⟩ hin rfl, hcount, ?_, Screen.litCount_le _,
    Screen.litCount_le _⟩
  have hflag : ((m.after (.draw x y n) .silence m.keypad).registers.flag = 0) ↔ ¬ 0 < erased := by
    rw [← hcollides, Bool.not_eq_true]
    show (m.registers.setFlag (m.screen.collides a b (m.sprite n))).flag = 0 ↔ _
    rw [Registers.flag_setFlag]
    cases m.screen.collides a b (m.sprite n) <;> decide
  rw [hflag]
  show ¬ 0 < erased ↔ (m.screen.overlay a b (m.sprite n)).litCount = _
  omega

/-- The digit 0 around the corner of a screen that is lit all over: its fourteen set bits darken a pixel each. -/
theorem execute_draw_litCount_corner :
    let m : Machine ScriptedKeypad := { Machine.new (.holding []) {} (.ofSeed 0) with
      screen := ⟨.fill true, false⟩
      registers := (powerOn.put 0 62).put 1 30 }
    ∃ m', execute (.draw 0 1 5) m = .ok .next m' ∧ m'.screen.litCount + 14 = 2048 ∧
      m'.registers.flag ≠ 0 := by
  intro m
  obtain ⟨m', hrun, hcount, hflag, -, -⟩ :=
    execute_draw_litCount (m := m) (x := 0) (y := 1) (n := 5) (by decide) (by decide) (by decide) (by decide)
  have hfont : m.memory.HoldsFont := Memory.holdsFont_new
  have hindex : m.registers.index.toNat = 0 := rfl
  have hbits : m.setBits 5 (fun _ _ => true) = 14 := by
    have hglyph : m.setBits 5 (fun _ _ => true) =
        (Sprite.cells 5).countP fun q => (Font.glyphs.getD q.2 0).getLsbD (7 - q.1) :=
      List.countP_congr fun q hq => by
        have hj : q.2 < 5 := (Sprite.mem_cells.1 hq).2
        have hbyte : m.memory.byte (m.registers.index.toNat + q.2) = Font.glyphs.getD q.2 0 := by
          rw [hindex, Nat.zero_add, hfont q.2 (by omega)]
        simp only [hbyte, Bool.and_true]
    rw [hglyph]
    decide
  have hlit : ∀ x < 64, ∀ y < 32, m.screen.lit x y = true := fun x hx y hy => by
    rw [← Screen.get_eq_lit hx hy]
    exact Grid.get_fill hx hy
  have herased : m.setBits 5 (fun i j => m.screen.lit (((m.registers.byte 0).toNat + i) % 64)
      (((m.registers.byte 1).toNat + j) % 32)) = 14 := by
    rw [← hbits, setBits, setBits]
    simp only [hlit _ (Nat.mod_lt _ (by decide)) _ (Nat.mod_lt _ (by decide))]
  have hfull : m.screen.litCount = 2048 := by
    show (Vector.replicate 2048 true).toList.count true = 2048
    rw [Vector.toList_replicate, List.count_replicate_self]
  rw [herased, hbits, hfull] at hcount
  rw [hbits, hfull] at hflag
  refine ⟨m', hrun, by omega, ?_⟩
  rw [ne_eq, hflag]
  omega

end Machine

end Chip8
