import Chip8.Proofs.History
import Chip8.Proofs.Outcomes

/-!
# Proofs/Presses — queued key presses are delivered once each, in the order in which they were queued

A scripted keypad hands out its presses to the instructions that wait for one. A script is what is done with a
machine that has such a keypad: presses of given codes are queued, and between them the machine does whatever it
does by itself (`Script`). It takes a press off the queue only to put it into a register, and the codes that are
given come to the end of the queue (`Makes.presses`); so the presses delivered so far and those still in the queue
are all that were ever given, in order (`Script.presses`). A wait that finds no press leaves the machine at the
same instruction, and there it stays until a press comes (`Does.waiting`).
-/

namespace Chip8.Machine

variable {m m' m₀ : Machine ScriptedKeypad} {d : Deed ScriptedKeypad} {i : Instruction} {x : Nat} {code : Byte}
  {rest : List Byte}

/-! ## Scripts -/

/-- What is done with a machine whose keypad is scripted. -/
inductive Move where
  /-- A press of this code is queued. -/
  | press (code : Byte)
  /-- The machine is made to do something. -/
  | deed (d : Deed ScriptedKeypad)

/-- What comes of a move. Only the presses change the keypad from outside. -/
inductive Makes (m : Machine ScriptedKeypad) : Move → Machine ScriptedKeypad → Prop
  | press (code : Byte) : Makes m (.press code) { m with keypad := m.keypad.press code }
  | deed {d : Deed ScriptedKeypad} {m' : Machine ScriptedKeypad} (does : m.Does d m') (own : ∀ pad, d ≠ .host pad) :
      Makes m (.deed d) m'

/-- Moves with the machine that each was made with, the earliest first. -/
abbrev Moves : Type := List (Machine ScriptedKeypad × Move)

/-- What was done with `m₀` until it became the machine at hand. -/
inductive Script (m₀ : Machine ScriptedKeypad) : Moves → Machine ScriptedKeypad → Prop
  | start : Script m₀ [] m₀
  | next {log : Moves} {m m' : Machine ScriptedKeypad} {a : Move} (before : Script m₀ log m)
      (makes : m.Makes a m') : Script m₀ (log ++ [(m, a)]) m'

variable {a : Move} {log : Moves}

/-- The codes given to the keypad in a move. -/
def Move.queued : Move → List Byte
  | press code => [code]
  | deed _ => []

/-- What a wait for a key has put into its register. -/
def Deed.delivered (m : Machine ScriptedKeypad) : Deed ScriptedKeypad → List Byte
  | executed (.awaitKey x) => [m.stepped.registers.byte x]
  | _ => []

/-- What a move has put into a register that waited for it. -/
def Move.delivered (m : Machine ScriptedKeypad) : Move → List Byte
  | press _ => []
  | deed d => d.delivered m

/-- The codes that were given to the keypad in a script, in order. -/
def queued (log : Moves) : List Byte := log.flatMap fun p => p.2.queued

/-- What the waits of a script have put into their registers, in order. -/
def delivered (log : Moves) : List Byte := log.flatMap fun p => p.2.delivered p.1

theorem queued_concat : queued (log ++ [(m, a)]) = queued log ++ a.queued := by
  rw [queued, List.flatMap_append, List.flatMap_singleton, queued]

theorem delivered_concat : delivered (log ++ [(m, a)]) = delivered log ++ a.delivered m := by
  rw [delivered, List.flatMap_append, List.flatMap_singleton, delivered]

theorem delivered_other (other : ∀ x, d ≠ .executed (.awaitKey x)) : d.delivered m = [] := by
  unfold Deed.delivered
  split
  · exact absurd rfl (other _)
  · rfl

/-! ## Waits -/

/-- Any other instruction leaves the keypad as it was. -/
theorem question_other (other : ∀ x, i ≠ .awaitKey x) : ∃ a, m.question i m.keypad = .ok a m.keypad := by
  cases i with
  | awaitKey x => exact absurd rfl (other x)
  | _ => exact ⟨_, rfl⟩

theorem question_awaitKey_nil (hnone : m.keypad.presses = []) :
    m.question (.awaitKey x) m.keypad = .error ScriptedKeypad.noMorePresses m.keypad := by
  have hask : Keypad.awaitPress m.keypad = .error ScriptedKeypad.noMorePresses m.keypad := by
    rw [Keypad.awaitPress, ScriptedKeypad.instKeypad]
    simp only [hnone]
  rw [question, map_run, hask]

theorem question_awaitKey_cons (hnext : m.keypad.presses = code :: rest) :
    m.question (.awaitKey x) m.keypad = .ok (.pressed code) { m.keypad with presses := rest } := by
  have hask : Keypad.awaitPress m.keypad = .ok code { m.keypad with presses := rest } := by
    rw [Keypad.awaitPress, ScriptedKeypad.instKeypad]
    simp only [hnext]
  rw [question, map_run, hask]

/-- A keypad that fails is left as it was. -/
theorem keypad_of_question_eq_error {cause : IoError} {pad : ScriptedKeypad}
    (h : m.question i m.keypad = .error cause pad) : pad = m.keypad := by
  by_cases hwait : ∃ x, i = .awaitKey x
  · obtain ⟨x, rfl⟩ := hwait
    rcases hqueue : m.keypad.presses with _ | ⟨code, rest⟩
    · exact (EStateM.Result.error.inj (h.symm.trans (question_awaitKey_nil hqueue))).2
    · exact absurd (h.symm.trans (question_awaitKey_cons hqueue)) nofun
  · obtain ⟨a, hask⟩ := question_other (m := m) fun x hx => hwait ⟨x, hx⟩
    exact absurd (h.symm.trans hask) nofun

/-- A wait for which no press is queued fails, and leaves the machine as it was. -/
theorem step_awaitKey_nil (fetched : m.fetched? = some (.awaitKey x)) (hnone : m.keypad.presses = []) :
    step m = .error (.error (.io ScriptedKeypad.noMorePresses)) m := by
  obtain ⟨reach, hi⟩ := fetched?_eq_some.1 fetched
  exact step_unanswered reach hi trivial rfl (question_awaitKey_nil hnone)

/-- A wait takes the next press off the queue and puts it into its register. -/
theorem step_awaitKey_cons (fetched : m.fetched? = some (.awaitKey x)) (hnext : m.keypad.presses = code :: rest) :
    ∃ m', step m = .ok (.awaitKey x) m' ∧ m'.registers.byte x = code ∧ m'.keypad.presses = rest := by
  obtain ⟨reach, hi⟩ := fetched?_eq_some.1 fetched
  have hx : x < 16 := Instruction.inRange_of_decode hi
  exact ⟨_, step_done reach hi trivial rfl (question_awaitKey_cons hnext), Registers.byte_put_byte hx code, rfl⟩

theorem step_awaitKey_error {stop : Stop} (fetched : m.fetched? = some (.awaitKey x))
    (hrun : step m = .error stop m') :
    m.keypad.presses = [] ∧ stop = .error (.io ScriptedKeypad.noMorePresses) ∧ m' = m := by
  rcases hqueue : m.keypad.presses with _ | ⟨code, rest⟩
  · obtain ⟨rfl, rfl⟩ := EStateM.Result.error.inj (hrun.symm.trans (step_awaitKey_nil fetched hqueue))
    exact ⟨rfl, rfl, rfl⟩
  · obtain ⟨m₁, hok, -⟩ := step_awaitKey_cons fetched hqueue
    exact absurd (hrun.symm.trans hok) nofun

/-! ## What is done with the queue -/

/-- A step that carries out another instruction leaves the keypad as it was. -/
theorem keypad_step_other (hrun : step m = .ok i m') (other : ∀ x, i ≠ .awaitKey x) : m'.keypad = m.keypad := by
  cases steps_of_run hrun with
  | done reach fetched fits accepted answered =>
    obtain ⟨a, hask⟩ := question_other (m := m) other
    obtain ⟨-, rfl⟩ := EStateM.Result.ok.inj (answered.symm.trans hask)
    exact keypad_proceed

/-- A failing step leaves the keypad as it was. -/
theorem keypad_step_error {e : Error} (hrun : step m = .error (.error e) m') : m'.keypad = m.keypad := by
  cases steps_of_run hrun with
  | unknown reach fetched => rfl
  | refused reach fetched href => rcases refusal?_inv href with ⟨nnn, rfl, -, -⟩ | ⟨rfl, -, -⟩ <;> rfl
  | unanswered reach fetched failed => exact keypad_of_question_eq_error failed

theorem refreshInput_eq : refreshInput m = .ok () m := rfl

/-- What the machine does by itself, other than to let a wait take effect, leaves the keypad as it was. -/
theorem Does.keypad (does : m.Does d m') (other : ∀ x, d ≠ .executed (.awaitKey x))
    (own : ∀ pad, d ≠ .host pad) : m'.keypad = m.keypad := by
  cases does with
  | load program =>
    obtain ⟨memory, hoffered⟩ := m.offered_inv program
    rw [hoffered]
  | executed done => exact keypad_step_other done fun x hx => other x (congrArg Deed.executed hx)
  | failed failed => exact keypad_step_error failed
  | refresh left =>
    rw [refreshInput_eq] at left
    obtain rfl := Option.some.inj left
    rfl
  | host keypad => exact absurd rfl (own keypad)
  | tick => rw [Machine.tickTimers]
  | redraw => rw [Machine.takeRedraw]
  | reset => rw [Machine.reset]

/-- A wait delivers the press that it takes off the queue. -/
theorem Does.presses_of_wait (does : m.Does (.executed (.awaitKey x)) m') :
    Deed.delivered m (.executed (.awaitKey x)) ++ m'.keypad.presses = m.keypad.presses := by
  cases does with
  | executed done =>
    have fetched : m.fetched? = some (.awaitKey x) := fetched?_eq_some.2 (step_fetched done)
    rcases hqueue : m.keypad.presses with _ | ⟨code, rest⟩
    · exact absurd (done.symm.trans (step_awaitKey_nil fetched hqueue)) nofun
    · obtain ⟨m₁, hrun, hbyte, hrest⟩ := step_awaitKey_cons fetched hqueue
      obtain ⟨-, rfl⟩ := EStateM.Result.ok.inj (done.symm.trans hrun)
      rw [Deed.delivered, stepped_of_ok done, hbyte, hrest]
      rfl

/-- **Presses are taken off the queue only to be delivered**, and the codes that are given come to its end. -/
theorem Makes.presses (makes : m.Makes a m') :
    a.delivered m ++ m'.keypad.presses = m.keypad.presses ++ a.queued := by
  cases makes with
  | press code => rfl
  | @deed d _ does own =>
    rw [Move.delivered, Move.queued, List.append_nil]
    by_cases hwait : ∃ x, d = .executed (.awaitKey x)
    · obtain ⟨x, rfl⟩ := hwait
      exact does.presses_of_wait
    · have other : ∀ x, d ≠ .executed (.awaitKey x) := fun x hx => hwait ⟨x, hx⟩
      rw [delivered_other other, does.keypad other own, List.nil_append]

/-- By induction on the moves. -/
theorem Script.presses (script : m₀.Script log m) :
    delivered log ++ m.keypad.presses = m₀.keypad.presses ++ queued log := by
  induction script with
  | start => exact (List.append_nil _).symm
  | next before makes ih =>
    rw [delivered_concat, queued_concat, List.append_assoc, makes.presses, ← List.append_assoc, ih,
      List.append_assoc]

/-! ## While a wait lasts -/

/-- No instruction takes effect, and the program stays as it is. -/
def Deed.Waits : Deed ScriptedKeypad → Prop
  | load _ | executed _ | reset => False
  | _ => True

/-- Presses may come, but no instruction takes effect, and the program stays as it is. -/
def Move.Waits : Move → Prop
  | press _ => True
  | deed d => d.Waits

/-- **A wait that failed is come to again**, whatever happens before a step completes. -/
theorem Does.waiting (does : m.Does d m') (waits : d.Waits) (fetched : m.fetched? = some (.awaitKey x)) :
    m'.fetched? = some (.awaitKey x) := by
  cases does with
  | load program | executed done | reset => exact waits.elim
  | failed failed =>
    obtain ⟨-, -, rfl⟩ := step_awaitKey_error fetched failed
    exact fetched
  | refresh left =>
    obtain rfl : m = m' := Option.some.inj left
    exact fetched
  | tick | redraw | host keypad => exact fetched

theorem Makes.waiting (makes : m.Makes a m') (waits : a.Waits) (fetched : m.fetched? = some (.awaitKey x)) :
    m'.fetched? = some (.awaitKey x) := by
  cases makes with
  | press code => exact fetched
  | deed does own => exact does.waiting waits fetched

theorem Move.delivered_waits (waits : a.Waits) : a.delivered m = [] := by
  cases a with
  | press code => rfl
  | deed d =>
    refine delivered_other ?_
    rintro x rfl
    exact waits

theorem Script.waiting (script : m₀.Script log m) (waits : ∀ p ∈ log, p.2.Waits)
    (fetched : m₀.fetched? = some (.awaitKey x)) : m.fetched? = some (.awaitKey x) ∧ delivered log = [] := by
  induction script with
  | start => exact ⟨fetched, rfl⟩
  | @next log m m' a before makes ih =>
    obtain ⟨hbefore, hlast⟩ := List.forall_mem_append.1 waits
    have ha : a.Waits := hlast (m, a) (List.mem_singleton.2 rfl)
    obtain ⟨h, hnone⟩ := ih hbefore
    refine ⟨makes.waiting ha h, ?_⟩
    rw [delivered_concat, hnone, Move.delivered_waits ha, List.append_nil]

/-- **Queued presses are delivered once and in order**, in every script, whatever steps fail. What the waits have
put into their registers, followed by what is still in the queue, is what was in the queue at first and the codes
that were given since. A wait fails exactly if no press is left, as if the user wanted to stop, and leaves the
machine as it was; whatever happens then before a step completes, as long as the program stays as it is, the same
instruction completes with the first code that is given in the meantime. Nothing else that is done with the machine
takes a press off the queue. -/
theorem presses_delivered (script : m₀.Script log m) :
    delivered log ++ m.keypad.presses = m₀.keypad.presses ++ queued log ∧
    (∀ x, m.fetched? = some (.awaitKey x) →
      ((∃ stop m', step m = .error stop m') ↔ m.keypad.presses = []) ∧
      (∀ stop m', step m = .error stop m' →
        stop = .error (.io ScriptedKeypad.noMorePresses) ∧ stop.isQuit = true ∧ m' = m) ∧
      (m.keypad.presses = [] → ∀ log' m₁, m.Script log' m₁ → (∀ p ∈ log', p.2.Waits) →
        ∀ code rest, queued log' = code :: rest →
          ∃ m', step m₁ = .ok (.awaitKey x) m' ∧ m'.registers.byte x = code ∧ m'.keypad.presses = rest)) ∧
    ∀ a m', m.Makes a m' → (∀ x, a ≠ .deed (.executed (.awaitKey x))) →
      m'.keypad.presses = m.keypad.presses ++ a.queued := by
  refine ⟨script.presses, fun x fetched => ⟨?_, ?_, ?_⟩, fun a m' makes other => ?_⟩
  · exact ⟨fun ⟨_, _, hrun⟩ => (step_awaitKey_error fetched hrun).1,
      fun hnone => ⟨_, _, step_awaitKey_nil fetched hnone⟩⟩
  · intro stop m' hrun
    obtain ⟨-, rfl, rfl⟩ := step_awaitKey_error fetched hrun
    exact ⟨rfl, rfl, rfl⟩
  · intro hnone log' m₁ script' waits code rest hqueued
    obtain ⟨fetched₁, hdelivered⟩ := script'.waiting waits fetched
    have hpresses := script'.presses
    rw [hdelivered, hnone, hqueued] at hpresses
    exact step_awaitKey_cons fetched₁ hpresses
  · have hnone : a.delivered m = [] := by
      cases a with
      | press code => rfl
      | deed d => exact delivered_other fun x hx => other x (congrArg Move.deed hx)
    rw [← makes.presses, hnone, List.nil_append]

/-- A wait that fails, then two presses: it completes with the first of them, and the other outlives a reset. -/
theorem presses_delivered_retry :
    let m₀ : Machine ScriptedKeypad := .withOpcode 0xf30a (.holding [])
    let m₁ : Machine ScriptedKeypad := { m₀ with keypad := (m₀.keypad.press 0xb).press 0x7 }
    ∃ m₂ log, step m₀ = .error (.error (.io ScriptedKeypad.noMorePresses)) m₀ ∧
      step m₁ = .ok (.awaitKey 3) m₂ ∧ m₂.registers.byte 3 = 0xb ∧ m₀.Script log m₂.reset ∧
      queued log = [0xb, 0x7] ∧ delivered log = [0xb] ∧ m₂.reset.keypad.presses = [0x7] := by
  intro m₀ m₁
  have fetched : m₀.fetched? = some (.awaitKey 3) :=
    fetched?_eq_some.2 ⟨by decide, (instruction?_withOpcode _ _).trans (by decide)⟩
  have hfail := step_awaitKey_nil fetched rfl
  let m' : Machine ScriptedKeypad := { m₀ with keypad := m₀.keypad.press 0xb }
  let waiting : Moves :=
    [(m₀, .deed (.failed (.io ScriptedKeypad.noMorePresses))), (m₀, .press 0xb), (m', .press 0x7)]
  have hwait : m₀.Script waiting m₁ :=
    Script.start.next (.deed (.failed hfail) nofun) |>.next (.press 0xb) |>.next (.press 0x7)
  have hwaits : ∀ p ∈ waiting, p.2.Waits :=
    List.forall_mem_cons.2 ⟨trivial, List.forall_mem_cons.2 ⟨trivial, List.forall_mem_singleton.2 trivial⟩⟩
  obtain ⟨-, hretry, -⟩ := presses_delivered (Script.start : m₀.Script [] m₀)
  obtain ⟨m₂, hrun, hbyte, hrest⟩ := (hretry 3 fetched).2.2 rfl waiting m₁ hwait hwaits 0xb [0x7] rfl
  have script := hwait.next (.deed (.executed hrun) nofun) |>.next (.deed .reset nofun)
  obtain ⟨hdelivered, -⟩ := presses_delivered script
  have hleft : m₂.reset.keypad.presses = [0x7] := hrest
  rw [hleft] at hdelivered
  exact ⟨m₂, _, hfail, hrun, hbyte, script, rfl, List.append_cancel_right hdelivered, hleft⟩

end Chip8.Machine
