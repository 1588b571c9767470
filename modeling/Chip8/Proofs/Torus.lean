import Chip8.Proofs.Compositing

/-!
# Proofs/Torus — a screen has no edges for a sprite

Rotating a screen moves every pixel on by some columns and rows, and what leaves it on one side comes back on
the other. A sprite is laid over the pixels around its corner, and the steps from the corner are counted around
the edges, so they are the same after a rotation of the corner and the pixel (`Screen.distance_moved`). That the
corner's coordinates are bytes does not show: a coordinate that wraps has moved by 256, which is a number of
times around the screen.

* `Screen.overlay_rotate` — the picture that is drawn rotates with the screen;
* `Screen.collides_rotate` — and the answer is the same.
-/

namespace Chip8

namespace Screen

variable {size w h v a b p vx vy px py : Nat} {s : Screen w h} {sprite : Sprite}

/-! ## Rotations -/

theorem distance_lt (h : 0 < size) : distance size a p < size := by
  apply Int.ofNat_lt.1
  rw [natCast_distance h]
  exact Int.emod_lt_of_pos _ (by omega)

/-- Going all the way round is going nowhere. -/
theorem distance_mod : distance size (a % size) p = distance size a p := by
  rw [distance, distance, Int.natCast_emod, Int.sub_emod_emod]

/-- The steps from a corner that has moved on by `a` are the steps from where it was to the place `a` before, even
if its coordinate has wrapped in a byte. -/
theorem distance_moved (h : 0 < size) (hbyte : size ∣ 256) :
    distance size ((v + a) % 256) p = distance size v (distance size a p) := by
  have hdvd : (size : Int) ∣ 256 := Int.natCast_dvd_natCast.2 hbyte
  have hmoved : ((p : Int) - ((v + a) % 256 : Nat)) % size = ((distance size a p : Int) - v) % size :=
    calc ((p : Int) - ((v + a) % 256 : Nat)) % size
      _ = (p - ((v + a : Nat) : Int) % 256 % size) % size := by rw [Int.sub_emod_emod]; rfl
      _ = (p - (v + a : Nat)) % size := by rw [Int.emod_emod_of_dvd _ hdvd, Int.sub_emod_emod]
      _ = (p - a - v) % size := congrArg (· % (size : Int)) (by omega)
      _ = (distance size a p - v) % size := by rw [natCast_distance h, Int.emod_sub_emod]
  exact congrArg Int.toNat hmoved

/-- The screen rotated right by `a` columns and down by `b` rows: each pixel comes from as far to the left and
above. -/
def rotate (s : Screen w h) (a b : Nat) : Screen w h :=
  { s with pixels := .ofFn fun px py => s.lit (distance w a px) (distance h b py) }

theorem lit_rotate (hx : px < w) (hy : py < h) :
    (s.rotate a b).lit px py = s.lit (distance w a px) (distance h b py) := by
  rw [← get_eq_lit hx hy, rotate, Grid.get_ofFn hx hy]

/-- A pixel is found again where the rotation takes it. -/
theorem lit_rotate_add (hx : px < w) (hy : py < h) :
    (s.rotate a b).lit ((a + px) % w) ((b + py) % h) = s.lit px py := by
  rw [lit_rotate (Nat.mod_lt _ (by omega)) (Nat.mod_lt _ (by omega)), distance_add hx, distance_add hy]

theorem rotate_mod (s : Screen w h) (a b : Nat) : s.rotate (a % w) (b % h) = s.rotate a b := by
  simp only [rotate, distance_mod]

/-! ## Drawing -/

section

variable (hw : 0 < w) (hh : 0 < h) (hwbyte : w ∣ 256) (hhbyte : h ∣ 256)

include hw hh hwbyte hhbyte

theorem covers_moved : sprite.covers w h ((vx + a) % 256) ((vy + b) % 256) px py =
    sprite.covers w h vx vy (distance w a px) (distance h b py) := by
  rw [Sprite.covers, Sprite.covers, distance_moved hw hwbyte, distance_moved hh hhbyte]

/-- **What is drawn rotates with the screen.** -/
theorem overlay_rotate : (s.rotate a b).overlay ((vx + a) % 256) ((vy + b) % 256) sprite =
    (s.overlay vx vy sprite).rotate a b := ext_lit rfl fun px hpx py hpy => by
  rw [lit_overlay hpx hpy, lit_rotate hpx hpy, lit_rotate hpx hpy,
    lit_overlay (distance_lt hw) (distance_lt hh), covers_moved hw hh hwbyte hhbyte]

/-- **A sprite collides with a rotated screen if it does with the screen.** A rotation takes the pixel where it
does so to another one. -/
theorem collides_rotate : (s.rotate a b).collides ((vx + a) % 256) ((vy + b) % 256) sprite =
    s.collides vx vy sprite := by
  rw [Bool.eq_iff_iff, collides_iff, collides_iff]
  constructor
  · rintro ⟨px, hpx, py, hpy, hcov, hon⟩
    rw [covers_moved hw hh hwbyte hhbyte] at hcov
    rw [lit_rotate hpx hpy] at hon
    exact ⟨_, distance_lt hw, _, distance_lt hh, hcov, hon⟩
  · rintro ⟨px, hpx, py, hpy, hcov, hon⟩
    refine ⟨(a + px) % w, Nat.mod_lt _ hw, (b + py) % h, Nat.mod_lt _ hh, ?_, ?_⟩
    · rwa [covers_moved hw hh hwbyte hhbyte, distance_add hpx, distance_add hpy]
    · rwa [lit_rotate_add hpx hpy]

end

end Screen

/-! ## A machine that draws -/

/-- The drawing with its corner `a` columns further right and `b` rows further down. -/
def Plot.moved (p : Plot) (a b : Byte) : Plot := { p with vx := p.vx + a, vy := p.vy + b }

section

variable (s : Screen screenWidth screenHeight) (p : Plot) (a b : Byte)

theorem Screen.overlay_moved :
    (s.rotate a.toNat b.toNat).overlay (p.moved a b).vx.toNat (p.moved a b).vy.toNat (p.moved a b).sprite =
      (s.overlay p.vx.toNat p.vy.toNat p.sprite).rotate a.toNat b.toNat := by
  rw [Plot.moved, BitVec.toNat_add, BitVec.toNat_add]
  exact overlay_rotate (by decide) (by decide) (by decide) (by decide)

theorem Screen.collides_moved :
    (s.rotate a.toNat b.toNat).collides (p.moved a b).vx.toNat (p.moved a b).vy.toNat (p.moved a b).sprite =
      s.collides p.vx.toNat p.vy.toNat p.sprite := by
  rw [Plot.moved, BitVec.toNat_add, BitVec.toNat_add]
  exact collides_rotate (by decide) (by decide) (by decide) (by decide)

theorem Screen.draw_moved :
    (s.rotate a.toNat b.toNat).draw (p.moved a b).vx.toNat (p.moved a b).vy.toNat (p.moved a b).sprite =
      .ok (s.collides p.vx.toNat p.vy.toNat p.sprite,
        (s.overlay p.vx.toNat p.vy.toNat p.sprite).rotate a.toNat b.toNat) := by
  rw [Machine.screen_draw_eq _ _ (Nat.lt_succ_of_le (p.moved a b).length_le), collides_moved, overlay_moved]

end

namespace Machine

variable {κ : Type} {m : Machine κ} {p : Plot} {a b : Byte}

/-- The machine with its screen rotated. -/
def rotate (m : Machine κ) (a b : Nat) : Machine κ := { m with screen := m.screen.rotate a b }

/-- On a rotated screen, a machine that draws where the corner has moved to comes to what it would have come to,
rotated. -/
theorem plotted_moved :
    (m.rotate a.toNat b.toNat).plotted (p.moved a b) = (m.plotted p).rotate a.toNat b.toNat := by
  unfold plotted rotate
  dsimp only
  rw [Screen.overlay_moved, Screen.collides_moved]

theorem Holds.moved (hholds : m.Holds p) : (m.rotate a.toNat b.toNat).Holds (p.moved a b) := by
  unfold Holds rotate Plot.moved
  exact hholds

theorem rotate_side (m : Machine κ) (a b : Nat) :
    m.rotate (a % screenWidth) (b % screenHeight) = m.rotate a b := by
  rw [rotate, rotate, Screen.rotate_mod]

/-- **A screen has no edges for a sprite.** Moving the corner on by `a` columns and `b` rows, in bytes that may
wrap, draws on a screen that is rotated by as much what was drawn before, rotated by as much, with the same
answer. So a machine that draws there comes to the same registers, the flag included, and to the rotated
screen. -/
theorem drawing_rotates (s : Screen screenWidth screenHeight) (m : Machine κ) (p : Plot) (a b : Byte) :
    (∃ hit s', s.draw p.vx.toNat p.vy.toNat p.sprite = .ok (hit, s') ∧
      (s.rotate (a.toNat % 64) (b.toNat % 32)).draw (p.vx + a).toNat (p.vy + b).toNat p.sprite =
        .ok (hit, s'.rotate (a.toNat % 64) (b.toNat % 32))) ∧
    (m.memory.slice m.registers.index.toNat p.sprite.length = .ok p.sprite →
      ∃ m', drawSprite p.vx p.vy p.sprite.length m = .ok () m' ∧
        drawSprite (p.vx + a) (p.vy + b) p.sprite.length (m.rotate (a.toNat % 64) (b.toNat % 32)) =
          .ok () (m'.rotate (a.toNat % 64) (b.toNat % 32))) := by
  constructor
  · refine ⟨_, _, screen_draw_eq p.vx p.vy (Nat.lt_succ_of_le p.length_le) s, ?_⟩
    rw [Screen.rotate_mod, Screen.rotate_mod]
    exact s.draw_moved p a b
  · intro hholds
    refine ⟨m.plotted p, drawSprite_plotted hholds, ?_⟩
    rw [rotate_side, rotate_side, ← plotted_moved]
    exact drawSprite_plotted (Holds.moved hholds)

/-- The top row of the digit 0, drawn over the right edge of a new machine's screen. -/
theorem drawing_rotates_edge :
    let m : Machine Unit := .new () {} (.ofSeed 0)
    ∃ m', drawSprite 60 30 1 m = .ok () m' ∧ drawSprite 2 29 1 (m.rotate 6 31) = .ok () (m'.rotate 6 31) := by
  intro m
  let p : Plot := ⟨60, 30, [0xf0], by decide⟩
  have hrow : m.memory.byte 0 = 0xf0 := Memory.holdsFont_new 0 (by decide)
  have hholds : m.memory.slice m.registers.index.toNat p.sprite.length = .ok p.sprite := by
    rw [Memory.slice_eq_block (by decide)]
    exact congrArg (fun row => Except.ok [row]) hrow
  obtain ⟨m', hrun, hrotated⟩ := (drawing_rotates Screen.new m p 198 255).2 hholds
  have hvx : p.vx + 198 = 2 := by decide
  have hvy : p.vy + 255 = 29 := by decide
  rw [hvx, hvy] at hrotated
  exact ⟨m', hrun, hrotated⟩

end Machine

end Chip8
