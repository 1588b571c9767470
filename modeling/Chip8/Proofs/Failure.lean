import Chip8.Proofs.Invariant

/-!
# Proofs/Failure — a step that fails has not happened

A failing step may have asked the keypad, and a refused call has moved the stack pointer there and back.
Neither shows in the machine: a stack pointer that a run reaches has no flags, so writing its own number
back to it restores it whole (`refused_eq`). What the keypad answers is all that enters a step from
outside (`step_keypad`), so a step goes the same way whether or not others have failed before it.
-/

namespace Chip8.Machine

variable {κ : Type} {m m' : Machine κ} {i : Instruction} {k : κ}

/-- What a question to the keypad comes to, apart from the keypad it leaves. -/
def answer {α : Type} : EStateM.Result IoError κ α → Except IoError α
  | .ok a _ => .ok a
  | .error cause _ => .error cause

theorem answer_eq_ok {α : Type} {r : EStateM.Result IoError κ α} {a : α} (h : answer r = .ok a) :
    ∃ keypad, r = .ok a keypad := by
  cases r with
  | ok b keypad => exact ⟨keypad, by rw [Except.ok.inj h]⟩
  | error cause keypad => cases h

theorem answer_eq_error {α : Type} {r : EStateM.Result IoError κ α} {cause : IoError}
    (h : answer r = .error cause) : ∃ keypad, r = .error cause keypad := by
  cases r with
  | ok b keypad => cases h
  | error cause' keypad => exact ⟨keypad, by rw [Except.error.inj h]⟩

/-! ## The keypad enters a step by its answer only -/

theorem fits_keypad (h : m.Fits i) : Fits { m with keypad := k } i := by
  cases i <;> exact h

theorem refusal?_keypad : refusal? { m with keypad := k } i = m.refusal? i := by
  cases i <;> rfl

theorem after_keypad (a : KeyAnswer) (k' : κ) : after { m with keypad := k } i a k' = m.after i a k' := by
  cases i <;> rfl

theorem proceed_keypad (flow : Flow) :
    proceed { m with keypad := k } flow = { m.proceed flow with keypad := k } := by
  cases flow <;> rfl

section

variable [Keypad κ]

theorem question_keypad : question { m with keypad := k } i = m.question i := by
  cases i <;> rfl

/-- **A step that completes does the same with any keypad that gives the same answer.** -/
theorem step_keypad (hrun : step m = .ok i m')
    (hsame : answer (m.question i k) = answer (m.question i m.keypad)) :
    ∃ k', step { m with keypad := k } = .ok i { m' with keypad := k' } := by
  have hout := steps_to (m := m)
  rw [hrun] at hout
  cases hout with
  | @done _ a k₁ reach fetched fits accepted answered =>
    rw [answered] at hsame
    obtain ⟨k', hask⟩ := answer_eq_ok hsame
    refine ⟨k', ?_⟩
    rw [step_done (m := { m with keypad := k }) reach fetched (fits_keypad fits)
      (refusal?_keypad.trans accepted) (by rw [question_keypad]; exact hask), after_keypad]
    exact congrArg (EStateM.Result.ok i) (proceed_keypad (m := m.after i a k₁) i.flow)

/-! ## Failing steps -/

/-- A failing step leaves all of the machine but the keypad as it was. -/
theorem step_error (hsp : m.registers.sp.Quiet) {e : Error} (hrun : step m = .error (.error e) m') :
    m' = { m with keypad := m'.keypad } := by
  have hout := steps_to (m := m)
  rw [hrun] at hout
  cases hout with
  | unknown reach fetched => rfl
  | refused reach fetched href => rw [refused_eq hsp]
  | unanswered reach fetched failed => rfl

/-- The causes that a failing step reports. -/
theorem step_error_cause {e : Error} (hrun : step m = .error (.error e) m') :
    e = .unknownOpcode (m.memory.word m.registers.pc.toNat) m.registers.pc.value ∨
      e = .stackOverflow m.registers.pc.value ∨ e = .stackUnderflow m.registers.pc.value ∨
        ∃ i cause, m.instruction? = some i ∧ answer (m.question i m.keypad) = .error cause ∧
          e = .io cause := by
  have hout := steps_to (m := m)
  rw [hrun] at hout
  cases hout with
  | unknown reach fetched => exact .inl rfl
  | unanswered reach fetched failed =>
    exact .inr (.inr (.inr ⟨_, _, fetched, by rw [failed, answer], rfl⟩))
  | refused reach fetched href =>
    rcases refusal?_inv href with ⟨_, -, -, rfl⟩ | ⟨-, -, rfl⟩
    · exact .inr (.inl rfl)
    · exact .inr (.inr (.inl rfl))

/-- Any number of failing steps, with whatever the keypad does between them. -/
inductive Attempts (m : Machine κ) : Machine κ → Prop
  | none : Attempts m m
  | fail {m₁ m₂ : Machine κ} {e : Error} (before : Attempts m m₁)
      (failed : step m₁ = .error (.error e) m₂) : Attempts m m₂
  | host {m₁ : Machine κ} (before : Attempts m m₁) (keypad : κ) : Attempts m { m₁ with keypad }

/-- By induction on the attempts: each starts from the stack pointer of the first. -/
theorem Attempts.eq (h : Attempts m m') (hsp : m.registers.sp.Quiet) :
    m' = { m with keypad := m'.keypad } := by
  induction h with
  | none => rfl
  | @fail m₁ m₂ e before failed ih =>
    have hsp₁ : m₁.registers.sp.Quiet := by rwa [ih]
    rw [step_error hsp₁ failed, ih]
  | host before keypad ih => rw [ih]

/-- **A failing step changes nothing**, and reports where it happened. So a step that completes after any
number of failing attempts is the step that would have completed without them, given the keypad's answer. -/
theorem step_failure (hm : m.Reachable) :
    (∀ e m', step m = .error (.error e) m' →
      m' = { m with keypad := m'.keypad } ∧
        (e = .unknownOpcode (m.memory.word m.registers.pc.toNat) m.registers.pc.value ∨
          e = .stackOverflow m.registers.pc.value ∨ e = .stackUnderflow m.registers.pc.value ∨
            ∃ i cause, m.instruction? = some i ∧ answer (m.question i m.keypad) = .error cause ∧
              e = .io cause)) ∧
    ∀ m₁ i m₂, m.Attempts m₁ → step m₁ = .ok i m₂ → ∀ keypad,
      answer (m.question i keypad) = answer (m.question i m₁.keypad) →
        ∃ keypad', step { m with keypad } = .ok i { m₂ with keypad := keypad' } := by
  have hsp : m.registers.sp.Quiet := hm.regular.sp.quiet
  refine ⟨fun e m' hrun => ⟨step_error hsp hrun, step_error_cause hrun⟩, ?_⟩
  intro m₁ i m₂ hattempts hrun keypad hsame
  obtain ⟨k₁, rfl⟩ : ∃ k₁, m₁ = { m with keypad := k₁ } := ⟨_, hattempts.eq hsp⟩
  refine step_keypad (m := { m with keypad := k₁ }) hrun ?_
  rw [question_keypad]
  exact hsame

/-- A wait for a key on a new machine: it fails while no key is pressed, and then goes the way it would have
gone at first. -/
theorem step_failure_awaitKey :
    let m (pad : ScriptedKeypad) : Machine ScriptedKeypad := .withOpcode 0xf00a pad
    (∃ m', step (m ⟨[], []⟩) = .error (.error (.io ScriptedKeypad.noMorePresses)) m') ∧
      ∃ m', step (m ⟨[], [7]⟩) = .ok (.awaitKey 0) m' := by
  intro m
  have hi (pad : ScriptedKeypad) : (m pad).instruction? = some (.awaitKey 0) := instruction?_withOpcode _ _
  have hfail := step_unanswered (m := m ⟨[], []⟩) (k := ⟨[], []⟩) (by decide) (hi _) trivial rfl rfl
  have hattempts : (m ⟨[], []⟩).Attempts (m ⟨[], [7, 8]⟩) := .host (.fail .none hfail) ⟨[], [7, 8]⟩
  have hrun := step_done (m := m ⟨[], [7, 8]⟩) (a := .pressed 7) (k := ⟨[], [8]⟩) (by decide) (hi _) trivial
    rfl rfl
  have hreach : (m ⟨[], []⟩).Reachable := reachable_withOpcode _ _
  obtain ⟨_, h⟩ := (step_failure hreach).2 _ _ _ hattempts hrun ⟨[], [7]⟩ rfl
  exact ⟨⟨_, hfail⟩, _, h⟩

end

end Chip8.Machine
