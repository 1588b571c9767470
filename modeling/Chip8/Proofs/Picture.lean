import Chip8.Keypad
import Chip8.Proofs.Effect

/-!
# Proofs/Picture — what the drawing instruction leaves on the screen

A pixel `(px, py)` lies `Screen.distance screenWidth a px` columns and `Screen.distance screenHeight b py`
rows on from the corner `(a, b)`, both counted around the edges, and that is the column and row of the
sprite that falls on it (`covers_sprite`). The whole effect of the instruction is stated in these terms,
with no trace of the loop.
-/

namespace Chip8.Machine

variable {κ : Type} {m : Machine κ} {a b px py : Nat} {n : Byte}

/-- The bits of the addressed sprite, in the bytes of memory. -/
theorem bit_sprite (m : Machine κ) {i j : Nat} (hi : i < 8) (hj : j < n.toNat) :
    (m.sprite n).bit i j = (m.memory.byte (m.registers.index.toNat + j)).getLsbD (7 - i) := by
  have hlen : (m.sprite n).length = n.toNat := Memory.length_block
  have hrow : (m.sprite n)[j]? = some (m.memory.byte (m.registers.index.toNat + j)) := by
    rw [List.getElem?_eq_getElem (hlen ▸ hj)]
    exact congrArg some (Memory.getElem_block _)
  rw [Sprite.bit, hrow, Option.getD_some, BitVec.getMsbD, decide_eq_true hi, Bool.true_and]

/-- The bit that falls on a pixel. -/
theorem covers_sprite (m : Machine κ) (n : Byte) (a b px py : Nat) :
    (m.sprite n).covers screenWidth screenHeight a b px py =
      if Screen.distance screenWidth a px < 8 ∧ Screen.distance screenHeight b py < n.toNat then
        (m.memory.byte (m.registers.index.toNat + Screen.distance screenHeight b py)).getLsbD
          (7 - Screen.distance screenWidth a px)
      else false := by
  rw [Sprite.covers]
  generalize Screen.distance screenWidth a px = i
  generalize Screen.distance screenHeight b py = j
  by_cases hj : j < n.toNat
  · by_cases hi : i < 8
    · rw [if_pos ⟨hi, hj⟩, m.bit_sprite hi hj]
    · rw [if_neg fun h => hi h.1, Sprite.bit, BitVec.getMsbD, decide_eq_false hi, Bool.false_and]
  · have hlen : (m.sprite n).length = n.toNat := Memory.length_block
    rw [if_neg fun h => hj h.2]
    exact Sprite.bit_eq_false_of_le (hlen ▸ Nat.le_of_not_lt hj)

/-- **Drawing a sprite, pixel by pixel.** With the corner `(a, b)` read from registers `x` and `y` before
anything is written, the pixel under bit `7 - i` of the sprite's row `j` becomes its exclusive or with that
bit, and no other pixel changes. The flag register ends as 1 if a set bit fell on a lit pixel and as 0
otherwise, a redraw is asked for, and the rest of the machine is as it was. -/
theorem execute_draw [Keypad κ] {x y : Nat} (hx : x < 16) (hy : y < 16) (hn : n.toNat < 16)
    (hin : m.registers.index.toNat + n.toNat ≤ 4096) :
    let column px := Screen.distance screenWidth (m.registers.byte x).toNat px
    let row py := Screen.distance screenHeight (m.registers.byte y).toNat py
    let bit px py :=
      (m.memory.byte (m.registers.index.toNat + row py)).getLsbD (7 - column px)
    ∃ hit screen, execute (.draw x y n) m =
        .ok .next { m with screen, registers := m.registers.setFlag hit } ∧
      (∀ px < 64, ∀ py < 32, screen.lit px py =
        if column px < 8 ∧ row py < n.toNat then m.screen.lit px py ^^ bit px py
        else m.screen.lit px py) ∧
      (hit = true ↔ ∃ px < 64, ∃ py < 32, (column px < 8 ∧ row py < n.toNat) ∧
        bit px py = true ∧ m.screen.lit px py = true) ∧
      (m.registers.setFlag hit).byte 15 = (if hit then 1 else 0) ∧
      screen.dirty = true := by
  intro column row bit
  have hcovers := m.covers_sprite n (m.registers.byte x).toNat (m.registers.byte y).toNat
  refine ⟨_, _, execute_accepted ⟨hx, hy, hn⟩ hin rfl, fun px hpx py hpy => ?_, ?_, ?_, rfl⟩
  · rw [screenAfter, Screen.lit_overlay hpx hpy, hcovers]
    split
    · rfl
    · rw [Bool.xor_false]
  · rw [Screen.collides_iff]
    refine exists_congr fun px => and_congr_right fun _ => exists_congr fun py => and_congr_right fun _ => ?_
    rw [hcovers, ← and_assoc]
    refine and_congr_left fun _ => ?_
    split
    · exact (and_iff_right ‹_›).symm
    · exact ⟨fun h => absurd h Bool.false_ne_true, fun h => absurd h.1 ‹_›⟩
  · rw [Registers.setFlag_eq_put, Registers.byte_put_self (by decide)]
    split <;> rfl

/-- The glyph of digit 0 on a new machine: its top left pixel is lit, and nothing was erased. -/
theorem execute_draw_glyph :
    let m : Machine ScriptedKeypad := .new (.holding []) {} (.ofSeed 0)
    ∃ screen, execute (.draw 0 0 5) m =
        .ok .next { m with screen, registers := m.registers.setFlag false } ∧
      screen.lit 0 0 = true := by
  intro m
  obtain ⟨hit, screen, hrun, hlit, hhit, -, -⟩ :=
    execute_draw (m := m) (x := 0) (y := 0) (n := 5) (by decide) (by decide) (by decide) (by decide)
  have hdark : ∀ px < 64, ∀ py < 32, m.screen.lit px py = false := fun px hpx py hpy => by
    rw [← Screen.get_eq_lit hpx hpy]
    exact Grid.get_fill hpx hpy
  have hbyte : m.memory.byte 0 = 0xf0 := by
    have hglyphs : m.memory = Memory.store ⟨.replicate 4096 0⟩ Font.base Font.glyphs := rfl
    rw [hglyphs, Memory.byte_store (by decide), if_pos (by decide)]
    rfl
  have hfalse : hit = false := by
    rw [← Bool.not_eq_true, hhit]
    rintro ⟨px, hpx, py, hpy, -, -, hon⟩
    exact Bool.false_ne_true ((hdark px hpx py hpy).symm.trans hon)
  subst hfalse
  refine ⟨screen, hrun, ?_⟩
  rw [hlit 0 (by decide) 0 (by decide), hdark 0 (by decide) 0 (by decide), if_pos (by decide)]
  show (false ^^ (m.memory.byte 0).getLsbD 7) = true
  rw [hbyte]
  rfl

end Chip8.Machine
