import Chip8.Proofs.Clocks
import Chip8.Proofs.History

/-!
# Proofs/Restart — a reset keeps the random stream, and no other trace of what came before

A reset machine is a new one that goes on with the old random stream (`reset_eq_new`). One instruction looks at
the stream, and as long as it does not come up the stream has no part in what a machine does: an action gives
the same reply and does the same to a machine with another stream (`act_withRandom`), and so do any number of
actions (`run_withRandom`).
-/

namespace Chip8.Machine

variable {κ : Type} {m : Machine κ}

/-- The machine with another random stream. -/
def withRandom (m : Machine κ) (random : RandomStream) : Machine κ := { m with random }

theorem reset_eq_new (m : Machine κ) (random : RandomStream) :
    m.reset = (Machine.new m.keypad m.dialect random).withRandom m.random := by
  rw [reset, withRandom, new]

theorem withRandom_withRandom (m : Machine κ) (random random' : RandomStream) :
    (m.withRandom random).withRandom random' = m.withRandom random' := rfl

theorem withRandom_new (keypad : κ) (dialect : Dialect) (random random' : RandomStream) :
    (Machine.new keypad dialect random).withRandom random' = .new keypad dialect random' := by
  rw [withRandom, new, new]

theorem load_withRandom (m : Machine κ) (random : RandomStream) (program : List Byte) :
    (m.withRandom random).load program = (m.load program).map (·.withRandom random) := by
  have hload : ∀ m : Machine κ, m.load program = (m.memory.load program).map fun memory => { m with memory } :=
    fun _ => rfl
  have hsame : (m.withRandom random).memory.load program = m.memory.load program := rfl
  rw [hload, hload, hsame]
  cases m.memory.load program <;> rfl

theorem offered_withRandom (m : Machine κ) (random : RandomStream) (program : List Byte) :
    (m.withRandom random).offered ((m.withRandom random).load program) =
      (m.offered (m.load program)).withRandom random := by
  rw [load_withRandom]
  cases m.load program <;> rfl

/-! ## What the host learns -/

/-- What an action tells the host. -/
inductive Reply where
  /-- The instruction that a step carried out, or what stopped it. -/
  | stepped (outcome : Except Stop Instruction)
  /-- Whether it should redraw. -/
  | redraw (wanted : Bool)

variable [Keypad κ] {acts : List (Action κ)} {a : Action κ}

/-- The reply to an action, if it has one. -/
def reply? (m : Machine κ) : Action κ → Option Reply
  | .step => some (.stepped m.outcome)
  | .redraw => some (.redraw m.takeRedraw.1)
  | .tick | .host _ => none

/-- The replies to some actions. -/
def replies (m : Machine κ) : List (Action κ) → List Reply
  | [] => []
  | a :: acts => (m.reply? a).toList ++ (m.act a).replies acts

/-! ## What the random stream has a part in -/

/-- A random instruction always completes. -/
theorem outcome_of_random {x : Nat} {nn : Byte} (fetched : m.fetched? = some (.random x nn)) :
    m.outcome = .ok (.random x nn) := by
  obtain ⟨reach, hi⟩ := fetched?_eq_some.1 fetched
  exact outcome_of_ok (step_done (k := m.keypad) reach hi trivial rfl rfl)

/-- A step of another instruction leaves the stream. -/
theorem random_stepped (other : ∀ x nn, m.fetched? ≠ some (.random x nn)) : m.stepped.random = m.random := by
  generalize hleft : m.stepped = m'
  cases hleft ▸ leaves_stepped (m := m) with
  | same fetched | unanswered fetched failed => rfl
  | @done i a k fetched fits accepted answered =>
    have hwords : i.randomWords = 0 := by
      cases i with
      | random x nn => exact absurd fetched (other x nn)
      | _ => rfl
    rw [random_proceed]
    show m.randomAfter i = m.random
    rw [randomAfter_eq, hwords, Nat.add_zero]
  | refused fetched href =>
    rcases refusal?_inv href with ⟨nnn, rfl, -, -⟩ | ⟨rfl, -, -⟩ <;> rfl
  | outside fetched outside =>
    unfold broken
    split <;> rfl

/-- A step of another instruction does not see the stream. -/
theorem stepped_withRandom (random : RandomStream) (other : ∀ x nn, m.fetched? ≠ some (.random x nn)) :
    (m.withRandom random).outcome = m.outcome ∧
      (m.withRandom random).stepped = m.stepped.withRandom random := by
  have hagree : m.Agree (m.withRandom random) := ⟨.of_eq rfl, rfl⟩
  have hinputs : ∀ i, m.fetched? = some i → SameInputs m (m.withRandom random) i := fun i fetched => by
    cases i with
    | random x nn => exact absurd fetched (other x nn)
    | shiftRight x y | shiftLeft x y | getDelay x | storeRegisters x | loadRegisters x => rfl
    | _ => trivial
  have hasked : m.asked = (m.withRandom random).asked := hagree.asked (fun _ _ => rfl) rfl
  have hlock := hagree.lockstep (fun _ _ => rfl) hinputs (congrArg answer hasked)
  have hafter := hlock.tandem
  have hkeypad : (m.withRandom random).stepped.keypad = m.stepped.keypad := by
    rw [keypad_stepped, keypad_stepped, hasked]
  exact ⟨hlock.outcome.symm, Machine.ext (hafter.memory rfl).symm (hafter.registers rfl).symm
    (hafter.screen rfl).symm (random_stepped (m := m.withRandom random) other) (hafter.dialect rfl).symm hkeypad⟩

/-- One action: no random instruction comes up, or it is not a step. -/
theorem act_withRandom (random : RandomStream) (other : a = .step → ∀ x nn, m.outcome ≠ .ok (.random x nn)) :
    (m.withRandom random).reply? a = m.reply? a ∧
      (m.withRandom random).act a = (m.act a).withRandom random := by
  cases a with
  | step =>
    obtain ⟨houtcome, hstepped⟩ := stepped_withRandom (m := m) random fun x nn fetched =>
      other rfl x nn (outcome_of_random fetched)
    exact ⟨congrArg (fun o => some (Reply.stepped o)) houtcome, hstepped⟩
  | tick | redraw | host keypad => exact ⟨rfl, rfl⟩

/-- By induction on the actions: machines with different streams go the same way. -/
theorem run_withRandom (random : RandomStream) (other : ∀ x nn, .ok (.random x nn) ∉ m.outcomes acts) :
    (m.withRandom random).replies acts = m.replies acts ∧
      (m.withRandom random).run acts = (m.run acts).withRandom random := by
  induction acts generalizing m with
  | nil => exact ⟨rfl, rfl⟩
  | cons a acts ih =>
    have hfirst : a = .step → ∀ x nn, m.outcome ≠ .ok (.random x nn) := by
      rintro rfl x nn houtcome
      exact other x nn (List.mem_cons.2 (.inl houtcome.symm))
    have hlater : ∀ x nn, .ok (.random x nn) ∉ (m.act a).outcomes acts := fun x nn hmem => by
      refine other x nn ?_
      cases a with
      | step => exact List.mem_cons_of_mem _ hmem
      | tick | redraw | host keypad => exact hmem
    obtain ⟨hreply, hact⟩ := act_withRandom random hfirst
    obtain ⟨hreplies, hrun⟩ := ih hlater
    rw [replies, replies, hreply, hact, hreplies]
    refine ⟨rfl, ?_⟩
    show ((m.withRandom random).act a).run acts = ((m.act a).run acts).withRandom random
    rw [hact, hrun]

/-- **A reset leaves no trace of the past but the random stream**, whatever was done with the machine before. It
then takes or refuses a program as a machine does that was just built with the same dialect and keypad. And as
long as no random instruction takes effect, the two give the host the same replies, step by step and redraw by
redraw, and are equal at every moment but for the stream, which neither draws from. -/
theorem reset_leaves_no_trace (m : Machine κ) (program : List Byte) (random : RandomStream) :
    let built := Machine.new m.keypad m.dialect random
    m.reset.load program = (built.load program).map (·.withRandom m.random) ∧
      let m₁ := m.reset.offered (m.reset.load program)
      let m₂ := built.offered (built.load program)
      ∀ acts, (∀ x nn, .ok (.random x nn) ∉ m₁.outcomes acts) →
        m₁.replies acts = m₂.replies acts ∧
        m₁.run acts = { m₂.run acts with random := m.random } ∧ (m₂.run acts).random = random := by
  intro built
  rw [reset_eq_new m random]
  refine ⟨load_withRandom built m.random program, ?_⟩
  intro m₁ m₂ acts other
  have hreset : m₁ = m₂.withRandom m.random := offered_withRandom built m.random program
  have hbuilt : m₂ = m₁.withRandom random := by
    have hoffered := offered_withRandom built random program
    rwa [withRandom_new, ← withRandom_withRandom m₂ m.random, ← hreset] at hoffered
  have hkept : m₁ = m₁.withRandom m.random := by rw [hreset, withRandom_withRandom]
  obtain ⟨-, hrun₁⟩ := run_withRandom m.random other
  obtain ⟨hreplies, hrun₂⟩ := run_withRandom random other
  rw [← hkept] at hrun₁
  rw [← hbuilt] at hreplies hrun₂
  refine ⟨hreplies.symm, ?_, congrArg Machine.random hrun₂⟩
  rw [hrun₂]
  exact hrun₁

/-- A machine with another program, a register that overflowed and a random stream under way is reset, and is to
clear the screen. -/
theorem reset_leaves_no_trace_clearScreen :
    let m : Machine ScriptedKeypad := { withOpcode 0xc0ff (.holding [3]) with
      registers := powerOn.put 1 300, random := (RandomStream.ofSeed 1).next.2 }
    let built := Machine.new m.keypad m.dialect (.ofSeed 0)
    let m₁ := m.reset.offered (m.reset.load [0x00, 0xe0])
    let m₂ := built.offered (built.load [0x00, 0xe0])
    m₁.replies [.step, .redraw] = m₂.replies [.step, .redraw] ∧
      m₁.run [.step, .redraw] = { m₂.run [.step, .redraw] with random := m.random } := by
  intro m built m₁ m₂
  have hi : m₁.instruction? = some .clearScreen :=
    congrArg Instruction.decode (Memory.word_store 0x00e0 (by decide))
  have houtcome : m₁.outcome = .ok .clearScreen :=
    outcome_of_ok (step_done (k := m₁.keypad) (by decide) hi trivial rfl rfl)
  obtain ⟨-, hacts⟩ := reset_leaves_no_trace m [0x00, 0xe0] (.ofSeed 0)
  obtain ⟨hreplies, hrun, -⟩ := hacts [.step, .redraw] fun x nn hmem => by
    have hsame := (List.mem_singleton.1 hmem).trans houtcome
    cases hsame
  exact ⟨hreplies, hrun⟩

end Chip8.Machine
