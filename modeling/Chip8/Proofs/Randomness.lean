import Chip8.Proofs.Footprint
import Chip8.Proofs.History

/-!
# Proofs/Randomness — random bytes are drawn one at a time, by one instruction

Only the random instruction draws from the stream, one word each time, and loads, resets and failing steps
leave the stream where it was (`Does.random`). So a machine that began with a seed has that seed's stream and
has drawn as many words as there were random instructions (`History.random`), and the byte that such an
instruction gives is known from the seed and from how many went before it.
-/

namespace Chip8.Machine

variable {κ : Type} {m m' m₀ : Machine κ}

/-- Whether a random instruction took effect. -/
def Deed.draws : Deed κ → Bool
  | executed (.random _ _) => true
  | _ => false

/-- How many random instructions took effect in a history. -/
def draws (log : Log κ) : Nat := log.countP fun p => p.2.draws

theorem draws_concat (log : Log κ) (m : Machine κ) (d : Deed κ) :
    draws (log ++ [(m, d)]) = draws log + if d.draws then 1 else 0 := by
  rw [draws, List.countP_append, List.countP_singleton, draws]

theorem randomWords_eq (i : Instruction) :
    i.randomWords = if (Deed.executed i : Deed κ).draws then 1 else 0 := by
  cases i <;> rfl

section

variable [Keypad κ]

/-- **Whatever is done with a machine leaves the key of its stream**, and draws one word if that is a random
instruction, else none. -/
theorem Does.random {d : Deed κ} (does : m.Does d m') (hm : m.Reachable) :
    m'.random = { m.random with drawn := m.random.drawn + if d.draws then 1 else 0 } := by
  cases does with
  | load program =>
    obtain ⟨memory, hoffered⟩ := m.offered_inv program
    rw [hoffered]
    rfl
  | executed done =>
    cases steps_of_run done with
    | done reach fetched fits accepted answered =>
      rw [random_proceed, ← randomWords_eq]
      exact randomAfter_eq
  | failed failed =>
    rw [step_error hm.regular.sp.quiet failed]
    rfl
  | refresh left =>
    obtain ⟨keypad, rfl⟩ := refresh_inv left
    rfl
  | tick | redraw | reset | host keypad => rfl

theorem History.random {log : Log κ} (hh : m₀.History log m) (h₀ : m₀.Reachable) :
    m.Reachable ∧ m.random = { m₀.random with drawn := m₀.random.drawn + draws log } := by
  refine hh.keeps (P := fun log m => m.Reachable ∧
    m.random = { m₀.random with drawn := m₀.random.drawn + draws log }) ⟨h₀, rfl⟩ ?_
  rintro before m d m' ⟨hm, h⟩ - does
  refine ⟨does.reachable hm, ?_⟩
  rw [does.random hm, h, draws_concat, Nat.add_assoc]

/-- A random instruction gives the next byte of the stream, masked. -/
theorem byte_random {x : Nat} {nn : Byte} (hrun : step m = .ok (.random x nn) m') :
    m'.registers.byte x = m.random.next.1 &&& nn := by
  cases steps_of_run hrun with
  | done reach fetched fits accepted answered =>
    have hx : x < 16 := Instruction.inRange_of_decode fetched
    exact Registers.byte_put_byte hx _

/-- **Random bytes depend on the seed and on how many were drawn before**, in every history from a new machine,
whatever steps fail, and across loads and resets. A random instruction before which `k` others took effect
leaves in its register the low eight bits of word `k` of the key stream of the seed, masked by its operand. -/
theorem random_reproducible {keypad : κ} {dialect : Dialect} {seed : UInt64} {log : Log κ}
    (hh : (Machine.new keypad dialect (.ofSeed seed)).History log m) :
    m.random = ⟨RandomStream.expand seed, draws log⟩ ∧
    ∀ before after m₁ x nn, log = before ++ (m₁, .executed (.random x nn)) :: after →
      ∃ m₂, step m₁ = .ok (.random x nn) m₂ ∧ m₂.History after m ∧ m₂.registers.byte x =
        BitVec.ofNat 8 (RandomStream.word (RandomStream.expand seed) (draws before)).toNat &&& nn := by
  have hstream : ∀ {log m}, (Machine.new keypad dialect (.ofSeed seed)).History log m →
      m.random = ⟨RandomStream.expand seed, draws log⟩ := fun {log m} hh => by
    obtain ⟨-, h⟩ := hh.random (.new keypad dialect (.ofSeed seed))
    rw [h]
    exact congrArg _ (Nat.zero_add _)
  refine ⟨hstream hh, ?_⟩
  rintro before after m₁ x nn rfl
  obtain ⟨m₂, hbefore, hdoes, hafter⟩ := hh.split
  cases hdoes with
  | executed hrun =>
    refine ⟨m₂, hrun, hafter, ?_⟩
    rw [byte_random hrun, hstream hbefore]
    rfl

/-- A reset between two draws: they give the first two words of the stream. -/
theorem random_reproducible_reset :
    let m₀ : Machine ScriptedKeypad := .new (.holding []) {} (.ofSeed 0)
    let program : List Byte := [0xc0, 0xff]
    let draw : Instruction := .random 0 0xff
    ∃ m₁ m₂ m₃ m₄, m₀.History [(m₀, .load program), (m₁, .executed draw), (m₂, .reset), (m₂.reset, .load program),
        (m₃, .executed draw)] m₄ ∧
      m₂.registers.byte 0 = 0x7f ∧ m₄.registers.byte 0 = 0xb2 ∧ m₄.random = ⟨RandomStream.expand 0, 2⟩ := by
  intro m₀ program draw
  let loaded (random : RandomStream) : Machine ScriptedKeypad :=
    { Machine.new (.holding []) {} random with memory := Memory.new.store Memory.programBase program }
  have hpc : powerOn.pc.toNat ≤ 4094 := by decide
  have hi : ∀ random, (loaded random).instruction? = some draw := fun _ =>
    congrArg Instruction.decode (Memory.word_store 0xc0ff (by decide))
  have hrun : ∀ random, step (loaded random) = .ok draw _ := fun random =>
    step_done (a := .silence) (k := .holding []) hpc (hi random) trivial rfl rfl
  have hfirst := History.start.next (.load (m := m₀) program) |>.next (.executed (hrun m₀.random))
  have hh := hfirst.next .reset |>.next (.load program) |>.next (.executed (hrun m₀.random.next.2))
  obtain ⟨hrandom, hbytes⟩ := random_reproducible hh
  obtain ⟨m₂, hrun₂, -, hbyte₂⟩ := hbytes [(m₀, .load program)] _ (loaded m₀.random) 0 0xff rfl
  obtain ⟨m₄, hrun₄, -, hbyte₄⟩ := hbytes _ [] (loaded m₀.random.next.2) 0 0xff rfl
  obtain ⟨-, rfl⟩ := EStateM.Result.ok.inj ((hrun _).symm.trans hrun₂)
  obtain ⟨-, rfl⟩ := EStateM.Result.ok.inj ((hrun _).symm.trans hrun₄)
  exact ⟨_, _, _, _, hh, hbyte₂.trans (by decide +kernel), hbyte₄.trans (by decide +kernel), hrandom⟩

end

end Chip8.Machine
