import Chip8.Proofs.Glyphs

/-!
# Proofs/Compositing — pictures made of several sprites

A dot flips its pixel if its bit is set. Flips commute and undo each other, so what a list of drawings does to
a pixel is the parity of the set bits that fall on it (`Screen.drawAll_eq`), on a screen of any size. The order
of the drawings is lost in that, and a drawing made twice cancels.

What a drawing answers does depend on the order. `Screen.collides_overlay_iff` is the answer to a sprite that is
drawn over itself; `Machine.drawSprite_plotted` is where a machine writes it down.
-/

namespace Chip8

/-! ## Parity -/

/-- Whether the number of set bits is odd. -/
def parity : List Bool → Bool
  | [] => false
  | b :: bits => b ^^ parity bits

theorem parity_append (bits bits' : List Bool) : parity (bits ++ bits') = (parity bits ^^ parity bits') := by
  induction bits with
  | nil => exact (Bool.false_xor _).symm
  | cons b bits ih => rw [List.cons_append, parity, parity, ih, Bool.xor_assoc]

theorem parity_perm {bits bits' : List Bool} (h : bits.Perm bits') : parity bits = parity bits' := by
  induction h with
  | nil => rfl
  | cons b _ ih => rw [parity, parity, ih]
  | swap a b bits => exact Bool.xor_left_comm b a (parity bits)
  | trans _ _ ih ih' => exact ih.trans ih'

/-- Two equal bits count for nothing. -/
theorem parity_cancel (before between after : List Bool) (b : Bool) :
    parity (before ++ b :: (between ++ b :: after)) = parity (before ++ (between ++ after)) := by
  have hcancel : (b ^^ (parity between ^^ (b ^^ parity after))) = (parity between ^^ parity after) := by
    rw [Bool.xor_left_comm (parity between), ← Bool.xor_assoc b, Bool.xor_self, Bool.false_xor]
  simp only [parity_append, parity, hcancel]

/-! ## Several drawings -/

/-- A sprite and the place of its corner. -/
structure Plot where
  /-- The column of the corner. -/
  vx : Byte
  /-- The row of the corner. -/
  vy : Byte
  /-- The sprite. -/
  sprite : Sprite
  /-- An instruction cannot draw more rows. -/
  length_le : sprite.length ≤ 15
deriving DecidableEq

/-- Whether a drawing flips pixel `(px, py)` of a screen of `w` by `h`, all told: several dots fall on it if the
screen is small. -/
def Plot.flips (p : Plot) (w h px py : Nat) : Bool :=
  parity (p.sprite.dots.map fun d => d.bit && d.place w h p.vx.toNat p.vy.toNat == (px, py))

namespace Screen

variable {w h vx vy : Nat} {plots plots' : List Plot}

/-- Draws one sprite after the other. -/
def drawAll : List Plot → Screen w h → Except Fault (Screen w h)
  | [], s => .ok s
  | p :: plots, s => do
    let (_, s) ← s.draw p.vx.toNat p.vy.toNat p.sprite
    drawAll plots s

/-- Dots flip the pixels they fall on, also where several fall on one. By induction on the dots. -/
theorem flipDots_parity {dots : List Sprite.Dot} (hw : 0 < w) (hh : 0 < h)
    (hfit : ∀ d ∈ dots, vx + d.column < UInt64.size ∧ vy + d.row < UInt64.size) (c : Bool) (s : Screen w h) :
    ∃ c' s', flipDots vx vy dots (c, s) = .ok (c', s') ∧ ∀ px < w, ∀ py < h,
      s'.lit px py = (s.lit px py ^^ parity (dots.map fun d => d.bit && d.place w h vx vy == (px, py))) := by
  induction dots generalizing c s with
  | nil => exact ⟨c, s, rfl, fun px _ py _ => (Bool.xor_false _).symm⟩
  | cons d dots ih =>
    obtain ⟨hfx, hfy⟩ := hfit d List.mem_cons_self
    obtain ⟨c', s', hrun, hlit⟩ := ih (fun e he => hfit e (List.mem_cons_of_mem d he))
      (c || (d.bit && s.lit (d.place w h vx vy).1 (d.place w h vx vy).2))
      (s.flipped (d.place w h vx vy) d.bit)
    refine ⟨c', s', ?_, fun px hpx py hpy => ?_⟩
    · rw [flipDots_cons hw hh hfx hfy, hrun]
    · rw [hlit px hpx py hpy, lit_flipped (place_fst_lt hw d) (place_snd_lt hh d) hpx hpy, List.map_cons,
        parity, Bool.xor_assoc]

theorem draw_plot (hw : 0 < w) (hh : 0 < h) (p : Plot) (s : Screen w h) :
    ∃ c s', s.draw p.vx.toNat p.vy.toNat p.sprite = .ok (c, s') ∧
      ∀ px < w, ∀ py < h, s'.lit px py = (s.lit px py ^^ p.flips w h px py) := by
  have hfit : ∀ d ∈ p.sprite.dots,
      p.vx.toNat + d.column < UInt64.size ∧ p.vy.toNat + d.row < UInt64.size := by
    intro d hd
    have hx : p.vx.toNat < 256 := p.vx.isLt
    have hy : p.vy.toNat < 256 := p.vy.isLt
    have hlen := p.length_le
    exact Sprite.lt_of_mem_dots (by simp only [UInt64.size]; omega) (by simp only [UInt64.size]; omega) hd
  obtain ⟨c, s', hrun, hlit⟩ := flipDots_parity hw hh hfit false s
  refine ⟨c, s'.markDirty, ?_, hlit⟩
  rw [draw, hrun]
  rfl

/-- **A list of drawings flips each pixel once for every set bit that falls on it.** By induction on the
list. -/
theorem drawAll_eq (hw : 0 < w) (hh : 0 < h) (plots : List Plot) (s : Screen w h) :
    ∃ s', s.drawAll plots = .ok s' ∧ ∀ px < w, ∀ py < h,
      s'.lit px py = (s.lit px py ^^ parity (plots.map fun p => p.flips w h px py)) := by
  induction plots generalizing s with
  | nil => exact ⟨s, rfl, fun px _ py _ => (Bool.xor_false _).symm⟩
  | cons p plots ih =>
    obtain ⟨c, s₁, hdraw, hlit₁⟩ := draw_plot hw hh p s
    obtain ⟨s', hrun, hlit⟩ := ih s₁
    refine ⟨s', ?_, fun px hpx py hpy => ?_⟩
    · rw [drawAll, hdraw, ok_bind]
      exact hrun
    · rw [hlit px hpx py hpy, hlit₁ px hpx py hpy, List.map_cons, parity, Bool.xor_assoc]

/-- Lists of drawings that flip each pixel alike come to the same picture. -/
theorem drawAll_pixels_eq (hw : 0 < w) (hh : 0 < h) (s : Screen w h)
    (hflips : ∀ px py, parity (plots.map fun p => p.flips w h px py) =
      parity (plots'.map fun p => p.flips w h px py)) :
    ∃ s₁ s₂, s.drawAll plots = .ok s₁ ∧ s.drawAll plots' = .ok s₂ ∧ s₁.pixels = s₂.pixels := by
  obtain ⟨s₁, hrun₁, hlit₁⟩ := drawAll_eq hw hh plots s
  obtain ⟨s₂, hrun₂, hlit₂⟩ := drawAll_eq hw hh plots' s
  refine ⟨s₁, s₂, hrun₁, hrun₂, pixels_eq_of_lit fun px hpx py hpy => ?_⟩
  rw [hlit₁ px hpx py hpy, hlit₂ px hpx py hpy, hflips]

theorem drawAll_perm (hw : 0 < w) (hh : 0 < h) (s : Screen w h) (hperm : plots.Perm plots') :
    ∃ s₁ s₂, s.drawAll plots = .ok s₁ ∧ s.drawAll plots' = .ok s₂ ∧ s₁.pixels = s₂.pixels :=
  drawAll_pixels_eq hw hh s fun _ _ => parity_perm (hperm.map _)

theorem drawAll_cancel (hw : 0 < w) (hh : 0 < h) (s : Screen w h) (before between after : List Plot)
    (p : Plot) :
    ∃ s₁ s₂, s.drawAll (before ++ p :: (between ++ p :: after)) = .ok s₁ ∧
      s.drawAll (before ++ (between ++ after)) = .ok s₂ ∧ s₁.pixels = s₂.pixels :=
  drawAll_pixels_eq hw hh s fun px py => by
    simp only [List.map_append, List.map_cons, parity_cancel]

end Screen

/-! ## What a drawing collides with -/

/-- No bit is set. -/
def Sprite.Blank (sprite : Sprite) : Prop := ∀ row ∈ sprite, row = 0

theorem Sprite.Blank.covers {sprite : Sprite} {w h vx vy px py : Nat} (hblank : sprite.Blank) :
    sprite.covers w h vx vy px py = false := by
  have hrow : sprite[Screen.distance h vy py]?.getD 0 = 0 := by
    cases hj : sprite[Screen.distance h vy py]? with
    | none => rfl
    | some row => exact hblank row (List.mem_of_getElem? hj)
  rw [Sprite.covers, bit, hrow]
  exact BitVec.getMsbD_zero

namespace Screen

variable {w h vx vy : Nat} {s : Screen w h} {sprite : Sprite}

/-- **A sprite drawn over itself collides where it was drawn on a dark pixel**: its own first drawing has lit
just those. -/
theorem collides_overlay_iff (hw : 8 ≤ w) (hh : sprite.length ≤ h) (hpos : 0 < h) :
    (s.overlay vx vy sprite).collides vx vy sprite = true ↔ ∃ d ∈ sprite.dots, d.bit = true ∧
      s.lit ((vx + d.column) % w) ((vy + d.row) % h) = false := by
  rw [collides_iff_dots hw hh hpos]
  refine exists_congr fun d => and_congr_right fun hd => and_congr_right fun hbit => ?_
  have hx : (d.place w h vx vy).1 < w := place_fst_lt (by omega) d
  have hy : (d.place w h vx vy).2 < h := place_snd_lt hpos d
  have hcov := (Sprite.covers_iff hw hh hx hy).2 ⟨d, hd, hbit, rfl⟩
  rw [lit_overlay hx hy, hcov, Bool.xor_true, Bool.not_eq_true']
  rfl

theorem pixels_overlay_of_blank (hblank : sprite.Blank) : (s.overlay vx vy sprite).pixels = s.pixels :=
  pixels_eq_of_lit fun x hx y hy => by
    rw [lit_overlay hx hy, hblank.covers, Bool.xor_false]

theorem collides_of_blank (hblank : sprite.Blank) : s.collides vx vy sprite = false := by
  rw [Bool.eq_false_iff]
  intro hc
  obtain ⟨px, -, py, -, hcov, -⟩ := collides_iff.1 hc
  rw [hblank.covers] at hcov
  cases hcov

end Screen

/-! ## A machine that draws -/

theorem Registers.flag_setFlag (r : Registers) (b : Bool) : (r.setFlag b).flag = if b then 1 else 0 := by
  rw [flag, setFlag, Vector.getElem_set_self]
  cases b <;> rfl

namespace Machine

variable {κ : Type} {m : Machine κ} {p : Plot} {w h : Nat}

/-- The rows of the sprite are in memory, where the index points. -/
def Holds (m : Machine κ) (p : Plot) : Prop :=
  m.memory.slice m.registers.index.toNat p.sprite.length = .ok p.sprite

/-- The machine after a drawing. -/
def plotted (m : Machine κ) (p : Plot) : Machine κ :=
  { m with
    screen := m.screen.overlay p.vx.toNat p.vy.toNat p.sprite
    registers := m.registers.setFlag (m.screen.collides p.vx.toNat p.vy.toNat p.sprite) }

theorem drawSprite_plotted (hholds : m.Holds p) :
    drawSprite p.vx p.vy p.sprite.length m = .ok () (m.plotted p) :=
  drawSprite_eq p.vx p.vy (Nat.lt_succ_of_le p.length_le) hholds

/-- A drawing changes neither the sprite nor the index. -/
theorem Holds.plotted (hholds : m.Holds p) : (m.plotted p).Holds p := hholds

/-- It is a drawing on the machine's screen. -/
theorem drawAll_screen (m : Machine κ) (p : Plot) : m.screen.drawAll [p] = .ok (m.plotted p).screen := by
  rw [Screen.drawAll, screen_draw_eq p.vx p.vy (Nat.lt_succ_of_le p.length_le)]
  rfl

/-- **Drawings commute and undo each other.** On a screen that has any pixels, drawings come to the same picture
in every order, and one that is made twice, wherever in the list, may as well be left out both times. A machine
draws just so; where it draws a sprite twice in a row, the second drawing sets the flag to 1 if a set bit fell on
a pixel that was dark before the first, and to 0 otherwise. A sprite without set bits changes no pixel and leaves
the flag 0. -/
theorem drawing_composes (hw : 0 < w) (hh : 0 < h) (s : Screen w h) (m : Machine κ) :
    (∀ plots plots', plots.Perm plots' →
      ∃ s₁ s₂, s.drawAll plots = .ok s₁ ∧ s.drawAll plots' = .ok s₂ ∧ s₁.pixels = s₂.pixels) ∧
    (∀ before between after p,
      ∃ s₁ s₂, s.drawAll (before ++ p :: (between ++ p :: after)) = .ok s₁ ∧
        s.drawAll (before ++ (between ++ after)) = .ok s₂ ∧ s₁.pixels = s₂.pixels) ∧
    ∀ p : Plot, m.memory.slice m.registers.index.toNat p.sprite.length = .ok p.sprite →
      ∃ m₁ m₂, drawSprite p.vx p.vy p.sprite.length m = .ok () m₁ ∧
        drawSprite p.vx p.vy p.sprite.length m₁ = .ok () m₂ ∧
        m.screen.drawAll [p] = .ok m₁.screen ∧
        m₂.registers.flag = (if ∃ d ∈ p.sprite.dots, d.bit = true ∧
          m.screen.lit ((p.vx.toNat + d.column) % 64) ((p.vy.toNat + d.row) % 32) = false then 1 else 0) ∧
        ((∀ row ∈ p.sprite, row = 0) →
          m₁.screen.pixels = m.screen.pixels ∧ m₁.registers.flag = 0) := by
  refine ⟨fun plots plots' hperm => Screen.drawAll_perm hw hh s hperm, Screen.drawAll_cancel hw hh s,
    fun p (hholds : m.Holds p) => ⟨m.plotted p, (m.plotted p).plotted p, drawSprite_plotted hholds,
      drawSprite_plotted hholds.plotted, m.drawAll_screen p, ?_, fun hblank => ⟨?_, ?_⟩⟩⟩
  · have hrows : p.sprite.length ≤ screenHeight := Nat.le_trans p.length_le (by decide)
    rw [plotted, Registers.flag_setFlag]
    refine ite_congr (propext ?_) (fun _ => rfl) fun _ => rfl
    exact Screen.collides_overlay_iff (by decide) hrows (by decide)
  · exact Screen.pixels_overlay_of_blank hblank
  · rw [plotted, Registers.flag_setFlag, Screen.collides_of_blank hblank]
    rfl

/-- The top row of the digit 0, drawn over the right edge of a new machine's screen and then drawn again,
collides with itself there. -/
theorem drawing_composes_edge :
    let m : Machine Unit := .new () {} (.ofSeed 0)
    ∃ m₁ m₂, drawSprite 62 31 1 m = .ok () m₁ ∧ drawSprite 62 31 1 m₁ = .ok () m₂ ∧
      m₂.registers.flag = 1 := by
  intro m
  let p : Plot := ⟨62, 31, [0xf0], by decide⟩
  have hrow : m.memory.byte 0 = 0xf0 := Memory.holdsFont_new 0 (by decide)
  have hholds : m.memory.slice m.registers.index.toNat p.sprite.length = .ok p.sprite := by
    rw [Memory.slice_eq_block (by decide)]
    exact congrArg (fun row => Except.ok [row]) hrow
  obtain ⟨-, -, hplots⟩ := drawing_composes (by decide : 0 < 64) (by decide : 0 < 32) Screen.new m
  obtain ⟨m₁, m₂, hfirst, hsecond, -, hflag, -⟩ := hplots p hholds
  refine ⟨m₁, m₂, hfirst, hsecond, ?_⟩
  have hdark : m.screen.lit 63 31 = false := Screen.lit_new (by decide) (by decide)
  rw [hflag, if_pos ⟨⟨1, 0, true⟩, by decide, rfl, hdark⟩]

end Machine

end Chip8
