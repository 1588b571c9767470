import Chip8.Proofs.CallStack

/-!
# Proofs/History — what is done with a machine, one thing after the other

A host loads programs, steps, ticks, takes redraws, lets the keypad take in events, resets, in any order.
`Machine.Does` says what comes of each, also of a program that is refused and of a step that fails; a fault
ends the history. A `Machine.History` is a list of such deeds, each beside the machine that it was done to, so
that a condition on what was executed, and in which state, is a condition on the members of the list.
`History.keeps` is the induction over it.
-/

namespace Chip8.Machine

variable {κ : Type} {m m' m₀ : Machine κ}

/-- What is done with a machine, and what the machine does. -/
inductive Deed (κ : Type) where
  /-- A program is offered to it, and loaded or refused. -/
  | load (program : List Byte)
  /-- A step carries out an instruction. -/
  | executed (i : Instruction)
  /-- A step fails, and reports why. -/
  | failed (e : Error)
  /-- The timers tick. -/
  | tick
  /-- The request to redraw is taken. -/
  | redraw
  /-- The keypad takes in what happened on the host. -/
  | refresh
  /-- The machine goes back to power-on. -/
  | reset
  /-- The host's keypad changes by itself. -/
  | host (keypad : κ)

/-- The machine after something was to be loaded into it: as loading left it, or as it was if that was
refused. -/
def offered (m : Machine κ) : Except Error (Machine κ) → Machine κ
  | .ok m' => m'
  | .error _ => m

/-- Loading writes from 0x200 on, and being refused nothing. -/
theorem byte_offered (m : Machine κ) (program : List Byte) {a : Nat} (ha : a < 0x200) :
    (m.offered (m.load program)).memory.byte a = m.memory.byte a := by
  cases hload : m.load program with
  | ok m' =>
    have hbase : Memory.programBase = 0x200 := rfl
    rw [offered, load_inv hload]
    exact Memory.byte_store_of_not_mem (by omega)
  | error e => rfl

/-- Loading changes memory and nothing else, whether or not it is refused. -/
theorem offered_inv (m : Machine κ) (program : List Byte) :
    ∃ memory, m.offered (m.load program) = { m with memory } := by
  cases hload : m.load program with
  | ok m' => exact ⟨_, load_inv hload⟩
  | error e => exact ⟨m.memory, rfl⟩

theorem registers_offered (m : Machine κ) (program : List Byte) :
    (m.offered (m.load program)).registers = m.registers := by
  obtain ⟨memory, hoffered⟩ := m.offered_inv program
  rw [hoffered]

/-- What comes of a deed. -/
inductive Does [Keypad κ] (m : Machine κ) : Deed κ → Machine κ → Prop
  | load (program : List Byte) : Does m (.load program) (m.offered (m.load program))
  | executed {i : Instruction} {m' : Machine κ} (done : step m = .ok i m') : Does m (.executed i) m'
  | failed {e : Error} {m' : Machine κ} (failed : step m = .error (.error e) m') : Does m (.failed e) m'
  | tick : Does m .tick m.tickTimers
  | redraw : Does m .redraw m.takeRedraw.2
  | refresh {m' : Machine κ} (left : left? (refreshInput m) = some m') : Does m .refresh m'
  | reset : Does m .reset m.reset
  | host (keypad : κ) : Does m (.host keypad) { m with keypad }

/-- Deeds with the machine that each was done to, the earliest first. -/
abbrev Log (κ : Type) : Type := List (Machine κ × Deed κ)

/-- What was done with `m₀` until it became the machine at hand. -/
inductive History [Keypad κ] (m₀ : Machine κ) : Log κ → Machine κ → Prop
  | start : History m₀ [] m₀
  | next {log : Log κ} {m m' : Machine κ} {d : Deed κ} (before : History m₀ log m) (does : m.Does d m') :
      History m₀ (log ++ [(m, d)]) m'

/-- The instruction that a deed carried out, and where it stood. -/
def Deed.station? (m : Machine κ) : Deed κ → Option (Word × Instruction)
  | executed i => some (m.registers.pc.value, i)
  | _ => none

/-- The instructions that took effect in a history, and where they stood. -/
def trace (log : Log κ) : List (Word × Instruction) := log.filterMap fun p => p.2.station? p.1

theorem trace_concat (log : Log κ) (m : Machine κ) (d : Deed κ) :
    trace (log ++ [(m, d)]) = trace log ++ (d.station? m).toList := by
  rw [trace, List.filterMap_append, trace]
  cases hd : d.station? m <;> simp only [List.filterMap_cons, List.filterMap_nil, hd, Option.toList]

section

variable [Keypad κ] {log : Log κ}

/-- **What every deed of a history keeps, holds at its end.** -/
theorem History.keeps {P : Log κ → Machine κ → Prop} (hh : m₀.History log m) (h₀ : P [] m₀)
    (hkeep : ∀ {before m d m'}, P before m → (m, d) ∈ log → m.Does d m' → P (before ++ [(m, d)]) m') :
    P log m := by
  induction hh with
  | start => exact h₀
  | next before does ih =>
    have hbefore := ih fun hP hmem => hkeep hP (List.mem_append_left _ hmem)
    exact hkeep hbefore (List.mem_append_right _ (List.mem_singleton.2 rfl)) does

/-- A history passes through each of its members. By induction on what comes after. -/
theorem History.split {before after : Log κ} {m₁ : Machine κ} {d : Deed κ}
    (hh : m₀.History (before ++ (m₁, d) :: after) m) :
    ∃ m₂, m₀.History before m₁ ∧ m₁.Does d m₂ ∧ m₂.History after m := by
  generalize hlog : before ++ (m₁, d) :: after = log at hh
  induction hh generalizing after with
  | start => exact absurd hlog (List.append_ne_nil_of_right_ne_nil before (List.cons_ne_nil _ after))
  | @next log n n' d' earlier does ih =>
    rcases List.eq_nil_or_concat after with rfl | ⟨after, last, rfl⟩
    · obtain ⟨rfl, hlast⟩ := List.append_inj' hlog rfl
      obtain ⟨rfl, rfl⟩ := Prod.mk.inj (List.head_eq_of_cons_eq hlast)
      exact ⟨_, earlier, does, .start⟩
    · rw [List.concat_eq_append, ← List.cons_append, ← List.append_assoc] at hlog
      obtain ⟨hbefore, hlast⟩ := List.append_inj' hlog rfl
      obtain ⟨m₂, hfirst, hdoes, hrest⟩ := ih hbefore
      rw [List.concat_eq_append, hlast]
      exact ⟨m₂, hfirst, hdoes, .next hrest does⟩

/-- **A deed that carries out nothing, and no reset, leaves the program where it was**: the program counter,
the stack pointer and everything below the program. -/
theorem Does.idle {d : Deed κ} (does : m.Does d m') (hsp : m.registers.sp.Quiet)
    (hexecuted : ∀ i, d ≠ .executed i) (hreset : d ≠ .reset) :
    m'.registers.pc = m.registers.pc ∧ m'.registers.sp = m.registers.sp ∧
      ∀ a < 0x200, m'.memory.byte a = m.memory.byte a := by
  cases does with
  | load program =>
    rw [registers_offered]
    exact ⟨rfl, rfl, fun a ha => byte_offered m program ha⟩
  | executed done => exact absurd rfl (hexecuted _)
  | failed failed =>
    rw [step_error hsp failed]
    exact ⟨rfl, rfl, fun _ _ => rfl⟩
  | tick | redraw | host keypad => exact ⟨rfl, rfl, fun _ _ => rfl⟩
  | refresh left =>
    obtain ⟨keypad, rfl⟩ := refresh_inv left
    exact ⟨rfl, rfl, fun _ _ => rfl⟩
  | reset => exact absurd rfl hreset

theorem reachable_offered (h : m.Reachable) (program : List Byte) :
    (m.offered (m.load program)).Reachable := by
  cases hload : m.load program with
  | ok m' => exact h.next (.load hload)
  | error e => exact h

/-- A history stays among the machines that runs reach. -/
theorem Does.reachable {d : Deed κ} (does : m.Does d m') (h : m.Reachable) : m'.Reachable := by
  cases does with
  | load program => exact reachable_offered h program
  | executed done => exact h.next (.step (congrArg left? done))
  | failed failed => exact h.next (.step (congrArg left? failed))
  | tick => exact h.next .tickTimers
  | redraw => exact h.next .takeRedraw
  | refresh left => exact h.next (.refresh left)
  | reset => exact h.next .reset
  | host keypad => exact h.next (.host keypad)

end

end Chip8.Machine
