import Chip8.Proofs.Footprint
import Chip8.Proofs.History
import Chip8.Proofs.Picture

/-!
# Proofs/Glyphs — the font stays where it is, and digits are drawn with it

The call stack begins right above the font, and programs are loaded above the stack, so only digits and
registers that a program stores through the index can reach the font. `Does.holdsFont` is the step: whatever
else is done with a machine, the font is still there. `execute_glyph` draws with it: an index that was set to
the glyph of a digit addresses its five rows.
-/

namespace Chip8

/-! ## The font in memory -/

namespace Memory

variable {m m' : Memory}

/-- The font lies at the bottom of memory. -/
def HoldsFont (m : Memory) : Prop := ∀ a < 0x50, m.byte a = Font.glyphs.getD a 0

theorem HoldsFont.congr (h : m.HoldsFont) (hbyte : ∀ a < 0x50, m'.byte a = m.byte a) : m'.HoldsFont :=
  fun a ha => (hbyte a ha).trans (h a ha)

theorem holdsFont_new : new.HoldsFont := fun a _ => byte_new a

theorem HoldsFont.slice (h : m.HoldsFont) : m.slice Font.base 0x50 = .ok Font.glyphs := by
  rw [slice_eq_block (by decide)]
  refine congrArg Except.ok (List.ext_getElem length_block fun a ha ha' => ?_)
  rw [getElem_block, Font.base, Nat.zero_add, h a ha', List.getD_eq_getElem?_getD,
    List.getElem?_eq_getElem ha', Option.getD_some]

end Memory

namespace Machine

variable {κ : Type} {m m' m₀ : Machine κ} {i : Instruction}

/-! ## What is done with a machine -/

/-- The instruction stores nothing over the font. -/
def SparesFont (m : Machine κ) (i : Instruction) : Prop := ∀ a, m.Stores i a → 0x50 ≤ a

/-- A call writes where the stack pointer is, and that is above the font. -/
theorem not_writes_of_sparesFont {a : Nat} (hsp : 0x52 ≤ m.registers.sp.toNat) (h : m.SparesFont i)
    (ha : a < 0x50) : ¬ m.Writes i a := by
  intro hw
  cases i with
  | call nnn =>
    have hlow := hw.2.1
    omega
  | storeDecimal x => exact Nat.not_lt_of_le (h a hw.2) ha
  | storeRegisters x => exact Nat.not_lt_of_le (h a ⟨hw.1, hw.2.1⟩) ha
  | _ => exact hw

section

variable [Keypad κ]

/-- **Whatever is done with a machine keeps the font**, unless an instruction stores over it. -/
theorem Does.holdsFont {d : Deed κ} (does : m.Does d m') (hm : m.Reachable) (h : m.memory.HoldsFont)
    (hspares : ∀ i, d = .executed i → m.SparesFont i) : m'.memory.HoldsFont := by
  have hsp := hm.regular.sp
  by_cases hreset : d = .reset
  · subst hreset
    cases does with
    | reset => exact Memory.holdsFont_new
  by_cases hexecuted : ∃ i, d = .executed i
  · obtain ⟨i, rfl⟩ := hexecuted
    cases does with
    | executed done =>
      cases steps_of_run done with
      | done reach fetched fits accepted answered =>
        rw [memory_proceed]
        exact h.congr fun a ha => byte_memoryAfter_of_not_writes fits accepted
          (not_writes_of_sparesFont hsp.low (hspares i rfl) ha)
  · obtain ⟨-, -, hbyte⟩ := does.idle hsp.quiet (fun i hd => hexecuted ⟨i, hd⟩) hreset
    exact h.congr fun a ha => hbyte a (Nat.lt_trans ha (by decide))

theorem History.holdsFont {log : Log κ} (hh : m₀.History log m) (h₀ : m₀.Reachable)
    (hfont : m₀.memory.HoldsFont) (hspares : ∀ m' i, (m', .executed i) ∈ log → m'.SparesFont i) :
    m.Reachable ∧ m.memory.HoldsFont := by
  refine hh.keeps (P := fun _ m => m.Reachable ∧ m.memory.HoldsFont) ⟨h₀, hfont⟩ ?_
  rintro before m d m' ⟨hm, h⟩ hmem does
  refine ⟨does.reachable hm, does.holdsFont hm h ?_⟩
  rintro i rfl
  exact hspares m i hmem

/-! ## Drawing a digit -/

theorem toNat_index_glyph (b : Byte) :
    (Register.ofInt (Font.glyphAddr b) : Register 16).toNat = 5 * (b.toNat % 16) := by
  have haddr : Font.glyphAddr b = 5 * (b.toNat % 16) := Nat.zero_add _
  rw [haddr]
  exact Register.toNat_ofInt_natCast (by simp only [Register.modulus]; omega)

/-- With the font in place, an index set to the glyph of a digit draws its five rows. -/
theorem execute_glyph (h : m.memory.HoldsFont) {x a b : Nat} (hx : x < 16) (ha : a < 16) (hb : b < 16) :
    let column px := Screen.distance screenWidth (m.registers.byte a).toNat px
    let row py := Screen.distance screenHeight (m.registers.byte b).toNat py
    ∃ m₁ m₂, execute (.setGlyph x) m = .ok .next m₁ ∧ execute (.draw a b 5) m₁ = .ok .next m₂ ∧
      ∀ px < 64, ∀ py < 32, m₂.screen.lit px py =
        if column px < 8 ∧ row py < 5 then m.screen.lit px py ^^
          (Font.glyphs.getD (5 * ((m.registers.byte x).toNat % 16) + row py) 0).getLsbD (7 - column px)
        else m.screen.lit px py := by
  intro column row
  let m₁ := m.after (.setGlyph x) .silence m.keypad
  have hindex : m₁.registers.index.toNat = 5 * ((m.registers.byte x).toNat % 16) :=
    toNat_index_glyph (m.registers.byte x)
  have hfits : m₁.Fits (.draw a b 5) := by
    show m₁.registers.index.toNat + 5 ≤ 4096
    omega
  refine ⟨m₁, _, execute_accepted hx trivial rfl, execute_accepted ⟨ha, hb, by decide⟩ hfits rfl,
    fun px hpx py hpy => ?_⟩
  have hcovers : (m₁.sprite 5).covers screenWidth screenHeight (m.registers.byte a).toNat
      (m.registers.byte b).toNat px py = if column px < 8 ∧ row py < 5 then
        (m.memory.byte (m₁.registers.index.toNat + row py)).getLsbD (7 - column px) else false :=
    m₁.covers_sprite 5 _ _ px py
  show (m.screen.overlay (m.registers.byte a).toNat (m.registers.byte b).toNat (m₁.sprite 5)).lit px py = _
  rw [Screen.lit_overlay hpx hpy, hcovers, hindex]
  by_cases hin : column px < 8 ∧ row py < 5
  · rw [if_pos hin, if_pos hin, h _ (by omega)]
  · rw [if_neg hin, if_neg hin, Bool.xor_false]

/-- **The font survives, and digits are drawn with it.** In every history from a new machine that stores no
digits and no registers below 0x50, at any depth of calls and whatever programs were offered, the bottom of
memory is the font. So setting the index to the glyph of register `x` and drawing five rows at `(a, b)` lays
the glyph of the hexadecimal digit over the screen by exclusive or, wrapping at the edges, also when the
register holds more than a digit. -/
theorem font_survives {keypad : κ} {dialect : Dialect} {random : RandomStream} {log : Log κ}
    (hh : (Machine.new keypad dialect random).History log m)
    (hspares : ∀ m' i, (m', .executed i) ∈ log → m'.SparesFont i) :
    m.memory.slice Font.base 0x50 = .ok Font.glyphs ∧
    ∀ x < 16, ∀ a < 16, ∀ b < 16,
      let column px := Screen.distance screenWidth (m.registers.byte a).toNat px
      let row py := Screen.distance screenHeight (m.registers.byte b).toNat py
      ∃ m₁ m₂, execute (.setGlyph x) m = .ok .next m₁ ∧ execute (.draw a b 5) m₁ = .ok .next m₂ ∧
        ∀ px < 64, ∀ py < 32, m₂.screen.lit px py =
          if column px < 8 ∧ row py < 5 then m.screen.lit px py ^^
            (Font.glyphs.getD (5 * ((m.registers.byte x).toNat % 16) + row py) 0).getLsbD (7 - column px)
          else m.screen.lit px py := by
  obtain ⟨-, h⟩ := hh.holdsFont (.new keypad dialect random) Memory.holdsFont_new hspares
  exact ⟨h.slice, fun x hx a ha b hb => execute_glyph h hx ha hb⟩

/-- A program that calls has put a return address right above the font. The digit 0 it then draws in the
corner is the one of the font. -/
theorem font_survives_call :
    let m₀ : Machine ScriptedKeypad := .new (.holding []) {} (.ofSeed 0)
    ∃ log m, m₀.History log m ∧ m.memory.word 0x52 = 0x202 ∧
      m.memory.slice Font.base 0x50 = .ok Font.glyphs ∧
      ∃ m₁ m₂, execute (.setGlyph 0) m = .ok .next m₁ ∧ execute (.draw 0 0 5) m₁ = .ok .next m₂ ∧
        m₂.screen.lit 0 0 = true := by
  intro m₀
  let loaded : Machine ScriptedKeypad := .withOpcode 0x2300 (.holding [])
  have hi : loaded.instruction? = some (.call 0x300) := instruction?_withOpcode _ _
  have hrun := step_done (m := loaded) (a := .silence) (k := loaded.keypad) (by decide) hi
    (show _ < _ by decide) rfl rfl
  let log : Log ScriptedKeypad := [(m₀, .load [0x23, 0x00]), (loaded, .executed (.call 0x300))]
  have hh : m₀.History log _ := .next (.next .start (.load [0x23, 0x00])) (.executed hrun)
  have hspares : ∀ m' i, (m', Deed.executed i) ∈ log → m'.SparesFont i := fun m' i hmem => by
    simp only [log, List.mem_cons, List.not_mem_nil, or_false, Prod.mk.injEq, reduceCtorEq, and_false,
      false_or, Deed.executed.injEq] at hmem
    obtain ⟨rfl, rfl⟩ := hmem
    exact fun _ hstores => hstores.elim
  obtain ⟨hslice, hglyph⟩ := font_survives hh hspares
  obtain ⟨m₁, m₂, hset, hdraw, hlit⟩ := hglyph 0 (by decide) 0 (by decide) 0 (by decide)
  refine ⟨log, _, hh, Memory.word_store 0x202 (by decide), hslice, m₁, m₂, hset, hdraw, ?_⟩
  have hdark : loaded.screen.lit 0 0 = false := Screen.lit_new (by decide) (by decide)
  rw [hlit 0 (by decide) 0 (by decide), if_pos (by decide)]
  show (loaded.screen.lit 0 0 ^^ (Font.glyphs.getD 0 0).getLsbD 7) = true
  rw [hdark]
  rfl

end

end Machine

end Chip8
