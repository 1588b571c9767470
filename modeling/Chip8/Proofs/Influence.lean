import Chip8.Proofs.Dependence

/-!
# Proofs/Influence — what has no part in a run

Two machines that differ are run beside each other, whatever comes of their steps. `afterSteps_unread`: bytes
that no step of one of them reads stay without effect, and a byte that is written over is no longer a
difference. `afterSteps_selfContained`: the dialect, the random stream and the keypad have their own
instructions, and as long as none of these comes up, machines that differ in them do the same. Both are one
step each (`Agree.lockstep`) and the induction on steps, `lockstep_run`.
-/

namespace Chip8

/-- Neither the dialect nor the random stream nor the keypad has a part in the instruction. A shift is such
if both of its operands are one register. -/
def Instruction.SelfContained : Instruction → Prop
  | .random _ _ | .skipKeyDown _ | .skipKeyUp _ | .awaitKey _ | .storeRegisters _ | .loadRegisters _ => False
  | .shiftRight x y | .shiftLeft x y => x = y
  | _ => True

namespace Machine

/-! ## Two machines side by side -/

/-- By induction on the steps: what one step of both keeps, a run of both keeps. -/
theorem lockstep_run {κ₁ κ₂ : Type} [Keypad κ₁] [Keypad κ₂] {m₁ : Machine κ₁} {m₂ : Machine κ₂}
    {R : Nat → Machine κ₁ → Machine κ₂ → Prop} {n : Nat} (start : R 0 m₁ m₂)
    (next : ∀ k < n, R k (m₁.afterSteps k) (m₂.afterSteps k) →
      (m₁.afterSteps k).outcome = (m₂.afterSteps k).outcome ∧
        R (k + 1) (m₁.afterSteps k).stepped (m₂.afterSteps k).stepped) :
    (∀ k < n, (m₁.afterSteps k).outcome = (m₂.afterSteps k).outcome) ∧
      ∀ k ≤ n, R k (m₁.afterSteps k) (m₂.afterSteps k) := by
  have hkeep : ∀ k ≤ n, R k (m₁.afterSteps k) (m₂.afterSteps k) := by
    intro k hk
    induction k with
    | zero => exact start
    | succ k ih => exact (next k hk (ih (Nat.le_of_lt hk))).2
  exact ⟨fun k hk => (next k hk (hkeep k (Nat.le_of_lt hk))).1, hkeep⟩

/-! ## Bytes that are not read -/

section

variable {κ : Type} {m₁ m₂ : Machine κ} {A : Nat → Prop}

/-- The machines are equal but for bytes at addresses in `A`. -/
structure EqualOutside (A : Nat → Prop) (m₁ m₂ : Machine κ) : Prop where
  byte : ∀ a, ¬ A a → m₁.memory.byte a = m₂.memory.byte a
  registers : m₁.registers = m₂.registers
  screen : m₁.screen = m₂.screen
  random : m₁.random = m₂.random
  dialect : m₁.dialect = m₂.dialect
  keypad : m₁.keypad = m₂.keypad

namespace EqualOutside

theorem mono {A' : Nat → Prop} (h : EqualOutside A m₁ m₂) (hA : ∀ a, A a → A' a) :
    EqualOutside A' m₁ m₂ :=
  { h with byte := fun a ha => h.byte a fun hin => ha (hA a hin) }

theorem agree (h : EqualOutside A m₁ m₂) : m₁.Agree m₂ :=
  ⟨.of_eq h.registers, congrArg Screen.pixels h.screen⟩

variable [Keypad κ]

/-- One step: a byte that it overwrites is no longer different. -/
theorem step (h : EqualOutside A m₁ m₂) (unread : ∀ a, A a → ¬ m₁.Reads a) :
    m₁.outcome = m₂.outcome ∧
      EqualOutside (fun a => A a ∧ ¬ m₁.Overwrites a) m₁.stepped m₂.stepped := by
  have hreads : ∀ a, m₁.Reads a → m₁.memory.byte a = m₂.memory.byte a := fun a ha =>
    h.byte a fun hA => unread a hA ha
  have hasked := h.agree.asked hreads h.keypad
  have hlock := h.agree.lockstep hreads (fun i _ => h.agree.sameInputs h.dialect h.random
    fun _ => congrArg Registers.delay h.registers) (congrArg answer hasked)
  have hafter := hlock.tandem
  exact ⟨hlock.outcome, {
    byte := fun a ha => hafter.byte a <| by
      by_cases hA : A a
      · exact .inr (Classical.byContradiction fun hno => ha ⟨hA, hno⟩)
      · exact .inl (h.byte a hA)
    registers := hafter.registers h.registers
    screen := hafter.screen h.screen
    random := hafter.random h.random
    dialect := hafter.dialect h.dialect
    keypad := by rw [keypad_stepped, keypad_stepped, hasked] }⟩

end EqualOutside

/-- **Bytes that a run does not read have no influence on it.** Machines that differ only in such bytes come
to the same in every step, and afterwards they differ at most in those of the bytes that were not written. -/
theorem afterSteps_unread [Keypad κ] {n : Nat} (start : EqualOutside A m₁ m₂)
    (unread : ∀ k < n, ∀ a, A a → ¬ (m₁.afterSteps k).Reads a) :
    (∀ k < n, (m₁.afterSteps k).outcome = (m₂.afterSteps k).outcome) ∧
      EqualOutside (fun a => A a ∧ ∀ k < n, ¬ (m₁.afterSteps k).Overwrites a) (m₁.afterSteps n)
        (m₂.afterSteps n) := by
  have hrun := lockstep_run (n := n)
    (R := fun k => EqualOutside fun a => A a ∧ ∀ j < k, ¬ (m₁.afterSteps j).Overwrites a)
    (start.mono fun a ha => ⟨ha, fun j hj => absurd hj (Nat.not_lt_zero j)⟩) <| by
      intro k hk h
      obtain ⟨houtcome, hnext⟩ := h.step fun a ha => unread k hk a ha.1
      refine ⟨houtcome, hnext.mono fun a ⟨⟨hA, hbefore⟩, hnow⟩ => ⟨hA, fun j hj => ?_⟩⟩
      -- written by an earlier step, or by this one
      rcases Nat.lt_succ_iff_lt_or_eq.1 hj with hlt | rfl
      · exact hbefore j hlt
      · exact hnow
  exact ⟨hrun.1, hrun.2 n (Nat.le_refl n)⟩

/-- Two bytes that differ while a number is stored over one of them: that one is no longer different. -/
theorem afterSteps_unread_storeDecimal :
    let m : Machine ScriptedKeypad :=
      { withOpcode 0xf033 ⟨[], []⟩ with registers := { powerOn with index := .ofNat 0x300 } }
    let m' := { m with memory := (m.memory.store 0x300 [9]).store 0x310 [9] }
    m.outcome = m'.outcome ∧ ∀ a, a ≠ 0x310 → m.stepped.memory.byte a = m'.stepped.memory.byte a := by
  intro m m'
  have hi : m.instruction? = some (.storeDecimal 0) :=
    instruction?_withOpcode 0xf033 (⟨[], []⟩ : ScriptedKeypad)
  have hfetched : m.fetched? = some (.storeDecimal 0) := (fetched?_eq (by decide)).trans hi
  have hbyte : ∀ a, ¬ (a = 0x300 ∨ a = 0x310) → m.memory.byte a = m'.memory.byte a := fun a ha => by
    rw [Memory.byte_store_of_not_mem (by simp only [List.length_singleton]; omega),
      Memory.byte_store_of_not_mem (by simp only [List.length_singleton]; omega)]
  have hunread : ∀ k < 1, ∀ a, (a = 0x300 ∨ a = 0x310) → ¬ (m.afterSteps k).Reads a := by
    intro k hk a ha hreads
    obtain rfl : k = 0 := Nat.lt_one_iff.1 hk
    rcases hreads with ⟨-, hpc⟩ | ⟨i, hi, hload⟩
    · have hpc : a = 0x200 ∨ a = 0x201 := hpc
      omega
    · obtain rfl := Option.some.inj (hfetched.symm.trans hi)
      exact hload
  obtain ⟨houtcome, hafter⟩ := afterSteps_unread (n := 1) ⟨hbyte, rfl, rfl, rfl, rfl, rfl⟩ hunread
  have hwrites : m.Writes (.storeDecimal 0) 0x300 := ⟨by decide, by decide, by decide⟩
  refine ⟨houtcome 0 Nat.one_pos, fun a ha => hafter.byte a fun ⟨hA, hno⟩ => hno 0 Nat.one_pos ?_⟩
  obtain rfl : a = 0x300 := hA.resolve_right ha
  exact (overwrites_iff hfetched).2 hwrites

end

/-! ## Dialect, random stream and keypad -/

section

variable {κ₁ κ₂ : Type} {m₁ : Machine κ₁} {m₂ : Machine κ₂}

/-- The machines have the same memory, registers and screen. -/
structure SameState (m₁ : Machine κ₁) (m₂ : Machine κ₂) : Prop where
  memory : m₁.memory = m₂.memory
  registers : m₁.registers = m₂.registers
  screen : m₁.screen = m₂.screen

theorem SameState.agree (h : SameState m₁ m₂) : m₁.Agree m₂ :=
  ⟨.of_eq h.registers, congrArg Screen.pixels h.screen⟩

theorem shiftSource_self (m : Machine κ₁) (x : Nat) : m.shiftSource x x = m.registers.byte x := by
  rw [shiftSource]
  cases m.dialect.shiftSource <;> rfl

theorem SameState.sameInputs (h : SameState m₁ m₂) {i : Instruction} (self : i.SelfContained) :
    SameInputs m₁ m₂ i := by
  cases i with
  | shiftRight x y | shiftLeft x y =>
    obtain rfl : x = y := self
    simp only [SameInputs, shiftSource_self, h.registers]
  | random x nn | storeRegisters x | loadRegisters x => exact self.elim
  | getDelay x => simp only [SameInputs, h.registers]
  | _ => trivial

theorem calls_of_selfContained {i : Instruction} (self : i.SelfContained) : m₁.calls i = [] := by
  cases i with
  | skipKeyDown x | skipKeyUp x | awaitKey x => exact self.elim
  | _ => rfl

variable [Keypad κ₁] [Keypad κ₂]

/-- One step, of an instruction that is self-contained if there is one at all. -/
theorem SameState.step (h : SameState m₁ m₂) (self : ∀ i, m₁.fetched? = some i → i.SelfContained) :
    m₁.outcome = m₂.outcome ∧ SameState m₁.stepped m₂.stepped := by
  have hbyte : ∀ a, m₁.memory.byte a = m₂.memory.byte a := fun a => by rw [h.memory]
  have hasks : m₁.asks = [] := by
    rw [asks]
    cases fetched : m₁.fetched? with
    | none => rfl
    | some i => exact calls_of_selfContained (self i fetched)
  have hheard : m₁.heard = m₂.heard := by
    rw [heard_of_asks hasks, heard_of_asks ((h.agree.asks fun a _ => hbyte a).symm.trans hasks)]
  have hlock := h.agree.lockstep (fun a _ => hbyte a) (fun i hi => h.sameInputs (self i hi)) hheard
  have hafter := hlock.tandem
  exact ⟨hlock.outcome, hafter.memory h.memory, hafter.registers h.registers, hafter.screen h.screen⟩

/-- **Dialect, random stream and keypad matter through their own instructions only.** As long as one of the
machines comes to no such instruction, both do the same, and memory, registers and screen are the same in
both at every moment. -/
theorem afterSteps_selfContained {n : Nat} (start : SameState m₁ m₂)
    (self : ∀ k < n, ∀ i, (m₁.afterSteps k).fetched? = some i → i.SelfContained) :
    (∀ k < n, (m₁.afterSteps k).outcome = (m₂.afterSteps k).outcome) ∧
      ∀ k ≤ n, SameState (m₁.afterSteps k) (m₂.afterSteps k) :=
  lockstep_run (R := fun _ => SameState) start fun k hk h => h.step (self k hk)

/-- Machines of different dialects, seeds and keypads that double a register in place. -/
theorem afterSteps_selfContained_shiftLeft :
    let m₁ : Machine ScriptedKeypad := .withOpcode 0x800e ⟨[], []⟩
    let m₂ : Machine (Keypad.Logged ScriptedKeypad) :=
      { m₁.withKeypad ⟨⟨[3], [7]⟩, []⟩ with random := .ofSeed 1, dialect := ⟨.vy, true⟩ }
    m₁.outcome = m₂.outcome ∧ SameState m₁.stepped m₂.stepped := by
  intro m₁ m₂
  have hi : m₁.instruction? = some (.shiftLeft 0 0) := instruction?_withOpcode _ _
  have hfetched : m₁.fetched? = some (.shiftLeft 0 0) := (fetched?_eq (by decide)).trans hi
  have hself : ∀ k < 1, ∀ i, (m₁.afterSteps k).fetched? = some i → i.SelfContained := by
    intro k hk i hi
    obtain rfl : k = 0 := Nat.lt_one_iff.1 hk
    obtain rfl := Option.some.inj (hfetched.symm.trans hi)
    rfl
  have hstart : SameState m₁ m₂ := ⟨rfl, rfl, rfl⟩
  obtain ⟨houtcome, hafter⟩ := afterSteps_selfContained hstart hself
  exact ⟨houtcome 0 Nat.one_pos, hafter 1 (Nat.le_refl 1)⟩

end

end Machine

end Chip8
