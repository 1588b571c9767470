import Chip8.Proofs.Failure
import Chip8.Proofs.Footprint

/-!
# Proofs/Outcomes — a step as what it comes to and what it leaves

A step is read here as a pair of functions of the machine: `Machine.outcome`, the instruction that was carried
out or the cause that stopped it, and `Machine.stepped`, the machine that is left either way. So steps can be
taken one after the other whatever comes of them (`afterSteps`). All that a step does is done by the
instruction it comes to, `Machine.fetched?`, whether or not that completes: the machine it leaves
(`leaves_stepped`), what it asks the keypad and hears (`asks`, `heard`), and the addresses it reads and
overwrites (`Reads`, `Overwrites`).
-/

namespace Chip8.Machine

variable {κ : Type} {m m' : Machine κ} {i : Instruction}

/-! ## What a step comes to -/

/-- The instruction that a step carries out, or what stops it. -/
def outcome [Keypad κ] (m : Machine κ) : Except Stop Instruction :=
  match step m with
  | .ok i _ => .ok i
  | .error stop _ => .error stop

/-- The machine that a step leaves, whether or not it completes. -/
def stepped [Keypad κ] (m : Machine κ) : Machine κ :=
  match step m with
  | .ok _ m' | .error _ m' => m'

/-- The machine after `n` steps. -/
def afterSteps [Keypad κ] (m : Machine κ) : Nat → Machine κ
  | 0 => m
  | n + 1 => (m.afterSteps n).stepped

theorem outcome_of_ok [Keypad κ] (h : step m = .ok i m') : m.outcome = .ok i := by rw [outcome, h]

theorem outcome_of_error [Keypad κ] {stop : Stop} (h : step m = .error stop m') :
    m.outcome = .error stop := by rw [outcome, h]

theorem stepped_of_ok [Keypad κ] (h : step m = .ok i m') : m.stepped = m' := by rw [stepped, h]

theorem stepped_of_error [Keypad κ] {stop : Stop} (h : step m = .error stop m') : m.stepped = m' := by
  rw [stepped, h]

/-- The instruction that a step comes to: there is none if the program counter is out of reach or the word
there encodes nothing. -/
def fetched? (m : Machine κ) : Option Instruction :=
  if m.registers.pc.toNat ≤ 4094 then m.instruction? else none

theorem fetched?_eq (reach : m.registers.pc.toNat ≤ 4094) : m.fetched? = m.instruction? := if_pos reach

theorem fetched?_of_lt (reach : 4094 < m.registers.pc.toNat) : m.fetched? = none :=
  if_neg (Nat.not_le_of_lt reach)

theorem fetched?_eq_some : m.fetched? = some i ↔ m.registers.pc.toNat ≤ 4094 ∧ m.instruction? = some i := by
  by_cases reach : m.registers.pc.toNat ≤ 4094
  · rw [fetched?_eq reach, and_iff_right reach]
  · rw [fetched?_of_lt (Nat.lt_of_not_le reach)]
    exact ⟨fun h => absurd h.symm (Option.some_ne_none i), fun h => absurd h.1 reach⟩

/-! ## What it leaves -/

/-- The machines that a step leaves: as it was, or as its instruction makes it. -/
inductive Leaves [Keypad κ] (m : Machine κ) : Machine κ → Prop
  /-- There is no instruction. -/
  | same (fetched : m.fetched? = none) : Leaves m m
  /-- The instruction takes effect. -/
  | done {i : Instruction} {a : KeyAnswer} {k : κ} (fetched : m.fetched? = some i) (fits : m.Fits i)
      (accepted : m.refusal? i = none) (answered : m.question i m.keypad = .ok a k) :
      Leaves m ((m.after i a k).proceed i.flow)
  /-- The keypad fails. -/
  | unanswered {i : Instruction} {cause : IoError} {k : κ} (fetched : m.fetched? = some i)
      (failed : m.question i m.keypad = .error cause k) : Leaves m { m with keypad := k }
  /-- The call stack refuses it. -/
  | refused {i : Instruction} {e : Error} (fetched : m.fetched? = some i) (refused : m.refusal? i = some e) :
      Leaves m (m.refused i)
  /-- Its operands leave the memory. -/
  | outside {i : Instruction} (fetched : m.fetched? = some i) (outside : ¬ m.Fits i) : Leaves m (m.broken i)

/-- **Every step leaves one of these.** -/
theorem leaves_stepped [Keypad κ] : m.Leaves m.stepped := by
  by_cases reach : m.registers.pc.toNat ≤ 4094
  · cases fetched : m.instruction? with
    | none =>
      rw [stepped_of_error (step_unknown reach fetched)]
      exact .same ((fetched?_eq reach).trans fetched)
    | some i =>
      have hi : m.fetched? = some i := (fetched?_eq reach).trans fetched
      by_cases fits : m.Fits i
      · cases href : m.refusal? i with
        | some e =>
          rw [stepped_of_error (step_refused reach fetched fits href)]
          exact .refused hi href
        | none =>
          cases hask : m.question i m.keypad with
          | ok a k =>
            rw [stepped_of_ok (step_done reach fetched fits href hask)]
            exact .done hi fits href hask
          | error cause k =>
            rw [stepped_of_error (step_unanswered reach fetched fits href hask)]
            exact .unanswered hi hask
      · rw [stepped_of_error (step_outside reach fetched fits)]
        exact .outside hi fits
  · have reach := Nat.lt_of_not_le reach
    rw [stepped_of_error (step_unreachable reach)]
    exact .same (fetched?_of_lt reach)

/-! ## What it reads and writes -/

/-- The addresses whose bytes an instruction reads: a return address, a sprite, or registers as far as memory
reaches. -/
def Loads (m : Machine κ) : Instruction → Nat → Prop
  | .ret, a =>
    84 ≤ m.registers.sp.toNat ∧ m.registers.sp.toNat ≤ a + 2 ∧ a < m.registers.sp.toNat
  | .draw _ _ n, a => m.registers.index.toNat + n.toNat ≤ 4096 ∧
    m.registers.index.toNat ≤ a ∧ a < m.registers.index.toNat + n.toNat
  | .loadRegisters x, a =>
    m.registers.index.toNat ≤ a ∧ a < m.registers.index.toNat + (x + 1) ∧ a < 4096
  | _, _ => False

/-- The addresses that a step reads: those of the word at the program counter, and those of its
instruction. -/
def Reads (m : Machine κ) (a : Nat) : Prop :=
  (m.registers.pc.toNat ≤ 4094 ∧ (a = m.registers.pc.toNat ∨ a = m.registers.pc.toNat + 1)) ∨
    ∃ i, m.fetched? = some i ∧ m.Loads i a

/-- The addresses that a step writes. -/
def Overwrites (m : Machine κ) (a : Nat) : Prop := ∃ i, m.fetched? = some i ∧ m.Writes i a

theorem overwrites_iff (fetched : m.fetched? = some i) {a : Nat} : m.Overwrites a ↔ m.Writes i a := by
  refine ⟨fun ⟨j, hj, h⟩ => ?_, fun h => ⟨i, fetched, h⟩⟩
  obtain rfl := Option.some.inj (fetched.symm.trans hj)
  exact h

theorem not_overwrites (fetched : m.fetched? = none) {a : Nat} : ¬ m.Overwrites a := fun ⟨_, hj, _⟩ =>
  Option.some_ne_none _ (hj.symm.trans fetched)

theorem not_writes_of_refusal {e : Error} (h : m.refusal? i = some e) {a : Nat} : ¬ m.Writes i a := by
  rcases refusal?_inv h with ⟨nnn, rfl, hsp, -⟩ | ⟨rfl, -, -⟩
  · exact fun hw => absurd hw.1 (Nat.not_lt_of_le hsp)
  · exact id

/-! ## What it asks -/

/-- The questions that a step puts to the keypad. -/
def asks (m : Machine κ) : List Keypad.Call := (m.fetched?.map m.calls).getD []

/-- What comes of its questions. -/
def asked [Keypad κ] (m : Machine κ) : EStateM.Result IoError κ KeyAnswer :=
  match m.fetched? with
  | some i => m.question i m.keypad
  | none => .ok .silence m.keypad

/-- What it hears from the keypad. -/
def heard [Keypad κ] (m : Machine κ) : Except IoError KeyAnswer := answer m.asked

/-- The keypad that a question leaves, whether or not it was answered. -/
def padLeft {α : Type} : EStateM.Result IoError κ α → κ
  | .ok _ pad | .error _ pad => pad

/-- Only an instruction that fits, is not refused and writes nothing puts a question. -/
theorem calls_eq_nil (h : ¬ (m.Fits i ∧ m.refusal? i = none ∧ ∀ a, ¬ m.Writes i a)) : m.calls i = [] := by
  cases i with
  | skipKeyDown x | skipKeyUp x | awaitKey x => exact absurd ⟨trivial, rfl, fun _ => id⟩ h
  | _ => rfl

section

variable [Keypad κ]

theorem asked_of_fetched (fetched : m.fetched? = some i) : m.asked = m.question i m.keypad := by
  rw [asked, fetched]

theorem asked_of_none (fetched : m.fetched? = none) : m.asked = .ok .silence m.keypad := by
  rw [asked, fetched]

/-- An instruction that puts no question hears nothing. -/
theorem question_of_calls (h : m.calls i = []) : m.question i = pure .silence := by
  cases i with
  | skipKeyDown x | skipKeyUp x | awaitKey x => exact absurd h (List.cons_ne_nil _ _)
  | _ => rfl

theorem heard_of_asks (h : m.asks = []) : m.heard = .ok .silence := by
  rw [heard]
  cases fetched : m.fetched? with
  | none => rw [asked_of_none fetched, answer]
  | some i =>
    have hcalls : m.calls i = [] := by rwa [asks, fetched] at h
    rw [asked_of_fetched fetched, question_of_calls hcalls]
    rfl

/-- A step leaves the keypad as its questions do. -/
theorem keypad_stepped : m.stepped.keypad = padLeft m.asked := by
  have hsilent : ∀ {i}, m.calls i = [] → m.keypad = padLeft (m.question i m.keypad) := fun h => by
    rw [question_of_calls h]
    rfl
  generalize hleft : m.stepped = m'
  cases hleft ▸ leaves_stepped (m := m) with
  | same fetched => rw [asked_of_none fetched, padLeft]
  | done fetched fits accepted answered =>
    rw [asked_of_fetched fetched, answered, keypad_proceed]
    rfl
  | unanswered fetched failed =>
    rw [asked_of_fetched fetched, failed]
    rfl
  | @refused i e fetched href =>
    have hno : m.calls i = [] := calls_eq_nil fun hall => Option.some_ne_none e (href.symm.trans hall.2.1)
    rw [asked_of_fetched fetched, ← hsilent hno]
    cases i <;> rfl
  | @outside i fetched outside =>
    rw [asked_of_fetched fetched, ← hsilent (calls_eq_nil fun hall => outside hall.1)]
    unfold broken
    split <;> rfl

end

end Chip8.Machine
