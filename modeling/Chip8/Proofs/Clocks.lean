import Chip8.Proofs.Dependence
import Chip8.Proofs.Iteration

/-!
# Proofs/Clocks — steps and ticks do not depend on each other

A host steps a machine, ticks its timers, takes its redraws and may change its keypad, in any order
(`Machine.Action`). As long as no instruction uses a timer, only the order of the steps matters:
`Alongside.run` goes through two lists of actions at once, passing over what is not a step, and compares step
with step (`Agree.lockstep`). A frame is a list of actions too (`Event.actions`), so schedulers of different
paces have the same machine once they have carried out equally many instructions (`clocks_independent`).
-/

namespace Chip8

/-- It reads or writes a timer. -/
def Instruction.UsesTimers : Instruction → Prop
  | .getDelay _ | .setDelay _ | .setSound _ => True
  | _ => False

namespace Register

/-- The register after `n` steps of a countdown. -/
def countDowns {width : Nat} (r : Register width) : Nat → Register width
  | 0 => r
  | n + 1 => r.countDown.countDowns n

end Register

namespace Machine

variable {κ : Type}

/-! ## What a host does with a machine -/

/-- One thing that a host does with a machine. -/
inductive Action (κ : Type) where
  /-- It makes a step. -/
  | step
  /-- It lets the timers tick. -/
  | tick
  /-- It takes the request to redraw. -/
  | redraw
  /-- It changes the keypad. -/
  | host (keypad : κ)

/-- Whether it is a step. -/
def Action.isStep : Action κ → Bool
  | step => true
  | _ => false

/-- Whether it is a tick. -/
def Action.isTick : Action κ → Bool
  | tick => true
  | _ => false

variable {m m₁ m₂ : Machine κ} {acts acts₁ acts₂ : List (Action κ)} {a : Action κ} {i : Instruction}

/-- Some steps among the actions have a first one. -/
theorem exists_first_step (h : 0 < acts.countP Action.isStep) :
    ∃ rests acts', acts = rests ++ .step :: acts' ∧ ∀ a ∈ rests, a.isStep = false := by
  induction acts with
  | nil => exact absurd h (Nat.lt_irrefl 0)
  | cons a acts ih =>
    cases a with
    | step => exact ⟨[], acts, rfl, nofun⟩
    | _ =>
      obtain ⟨rests, acts', rfl, hrests⟩ := ih h
      exact ⟨_ :: rests, acts', rfl, List.forall_mem_cons.2 ⟨rfl, hrests⟩⟩

/-- It leaves alone the keypad if that counts, and the request to redraw if that does. -/
def Action.Spares (K D : Prop) : Action κ → Prop
  | host _ => ¬ K
  | redraw => ¬ D
  | _ => True

theorem Action.spares_of_mem {K D : Prop} (ha : a ∈ acts) (hosts : K → ∀ k, .host k ∉ acts)
    (redraws : D → .redraw ∉ acts) : a.Spares K D := by
  cases a with
  | host k => exact fun hK => hosts hK k ha
  | redraw => exact fun hD => redraws hD ha
  | _ => trivial

theorem instruction?_tickTimers : m.tickTimers.instruction? = m.instruction? := rfl

/-! ## Machines that are equal but for the timers -/

/-- The machines are equal but for the timers. The keypads count if `K` holds, and the requests to redraw if
`D` does. -/
structure Alongside (K D : Prop) (m₁ m₂ : Machine κ) : Prop where
  agree : m₁.Agree m₂
  memory : m₁.memory = m₂.memory
  random : m₁.random = m₂.random
  dialect : m₁.dialect = m₂.dialect
  keypad : K → m₁.keypad = m₂.keypad
  dirty : D → m₁.screen.dirty = m₂.screen.dirty

namespace Alongside

variable {K D : Prop}

theorem refl (m : Machine κ) : Alongside K D m m :=
  ⟨⟨.of_eq rfl, rfl⟩, rfl, rfl, rfl, fun _ => rfl, fun _ => rfl⟩

theorem symm (h : Alongside K D m₁ m₂) : Alongside K D m₂ m₁ :=
  ⟨h.agree.symm, h.memory.symm, h.random.symm, h.dialect.symm, fun hK => (h.keypad hK).symm,
    fun hD => (h.dirty hD).symm⟩

/-- Machines alongside each other are equal if everything counts and the timers are equal. -/
theorem eq (h : Alongside K D m₁ m₂) (hK : K) (hD : D)
    (hregisters : m₁.registers = m₂.registers) : m₁ = m₂ :=
  Machine.ext h.memory hregisters (Screen.eq_of_pixels h.agree.pixels (h.dirty hD)) h.random h.dialect
    (h.keypad hK)

end Alongside

/-! ## Runs -/

variable [Keypad κ]

/-- The machine after an action. -/
def act (m : Machine κ) : Action κ → Machine κ
  | .step => m.stepped
  | .tick => m.tickTimers
  | .redraw => m.takeRedraw.2
  | .host keypad => { m with keypad }

/-- The machine after some actions. -/
def run (m : Machine κ) (acts : List (Action κ)) : Machine κ := acts.foldl act m

/-- The machines that the steps among some actions start from. -/
def stations (m : Machine κ) : List (Action κ) → List (Machine κ)
  | [] => []
  | a :: acts => if a.isStep then m :: (m.act a).stations acts else (m.act a).stations acts

/-- What the steps among some actions come to. -/
def outcomes (m : Machine κ) (acts : List (Action κ)) : List (Except Stop Instruction) :=
  (m.stations acts).map outcome

theorem stations_step : m.stations (.step :: acts) = m :: m.stepped.stations acts := rfl

theorem outcomes_step : m.outcomes (.step :: acts) = m.outcome :: m.stepped.outcomes acts := rfl

theorem stations_rest (h : a.isStep = false) : m.stations (a :: acts) = (m.act a).stations acts := by
  rw [stations, h]
  rfl

theorem outcomes_rest (h : a.isStep = false) : m.outcomes (a :: acts) = (m.act a).outcomes acts := by
  rw [outcomes, stations_rest h, outcomes]

theorem run_append : m.run (acts₁ ++ acts₂) = (m.run acts₁).run acts₂ := List.foldl_append

theorem stations_append : m.stations (acts₁ ++ acts₂) = m.stations acts₁ ++ (m.run acts₁).stations acts₂ := by
  induction acts₁ generalizing m with
  | nil => rfl
  | cons a acts ih =>
    rw [List.cons_append, stations, stations, ih]
    split <;> rfl

theorem stations_rests (h : ∀ a ∈ acts, a.isStep = false) : m.stations acts = [] := by
  induction acts generalizing m with
  | nil => rfl
  | cons a acts ih =>
    have ha := List.forall_mem_cons.1 h
    rw [stations_rest ha.1]
    exact ih ha.2

theorem outcomes_rests (h : ∀ a ∈ acts₁, a.isStep = false) :
    m.outcomes (acts₁ ++ acts₂) = (m.run acts₁).outcomes acts₂ := by
  rw [outcomes, stations_append, stations_rests h, List.nil_append, outcomes]

/-! ## Instructions that use no timer -/

theorem outcome_of_usesTimers (fetched : m.fetched? = some i) (timed : i.UsesTimers) : m.outcome = .ok i := by
  obtain ⟨reach, hi⟩ := fetched?_eq_some.1 fetched
  cases i with
  | getDelay x | setDelay x | setSound x =>
    exact outcome_of_ok (step_done (k := m.keypad) reach hi trivial rfl rfl)
  | _ => exact timed.elim

/-- A step of another instruction leaves the timers as they were. -/
theorem timers_stepped (untimed : ∀ i, m.fetched? = some i → ¬ i.UsesTimers) :
    m.stepped.registers.delay = m.registers.delay ∧ m.stepped.registers.sound = m.registers.sound := by
  generalize hleft : m.stepped = m'
  cases hleft ▸ leaves_stepped (m := m) with
  | same fetched => exact ⟨rfl, rfl⟩
  | @done i a k fetched fits accepted answered =>
    have hdelay : ∀ x, i ≠ .setDelay x := fun x hi => untimed i fetched (by rw [hi]; trivial)
    have hsound : ∀ x, i ≠ .setSound x := fun x hi => untimed i fetched (by rw [hi]; trivial)
    have hproceed : ((m.after i a k).proceed i.flow).registers.delay = (m.registersAfter a i).delay ∧
        ((m.after i a k).proceed i.flow).registers.sound = (m.registersAfter a i).sound := by
      cases i.flow <;> exact ⟨rfl, rfl⟩
    rw [hproceed.1, hproceed.2]
    exact ⟨delay_registersAfter hdelay a, sound_registersAfter hsound a⟩
  | unanswered fetched failed => exact ⟨rfl, rfl⟩
  | @refused i e fetched href => cases i <;> exact ⟨rfl, rfl⟩
  | @outside i fetched outside =>
    cases i with
    | loadRegisters x => exact ⟨Registers.delay_load, Registers.sound_load⟩
    | _ => exact ⟨rfl, rfl⟩

theorem not_usesTimers_of_fetched (untimed : ∀ i, .ok i ∈ m.outcomes (.step :: acts) → ¬ i.UsesTimers)
    (i : Instruction) (fetched : m.fetched? = some i) : ¬ i.UsesTimers := fun timed =>
  untimed i (List.mem_cons.2 (.inl (outcome_of_usesTimers fetched timed).symm)) timed

/-- By induction on the actions: only the ticks among them count the timers down. -/
theorem timers_run (untimed : ∀ i, .ok i ∈ m.outcomes acts → ¬ i.UsesTimers) :
    (m.run acts).registers.delay = m.registers.delay.countDowns (acts.countP Action.isTick) ∧
      (m.run acts).registers.sound = m.registers.sound.countDowns (acts.countP Action.isTick) := by
  induction acts generalizing m with
  | nil => exact ⟨rfl, rfl⟩
  | cons a acts ih =>
    cases a with
    | step =>
      obtain ⟨hdelay, hsound⟩ := timers_stepped (not_usesTimers_of_fetched untimed)
      have hrest := ih (m := m.stepped) fun i hi => untimed i (List.mem_cons_of_mem _ hi)
      rwa [hdelay, hsound] at hrest
    | tick =>
      rw [List.countP_cons_of_pos rfl]
      exact ih (m := m.tickTimers) untimed
    | redraw => exact ih (m := m.takeRedraw.2) untimed
    | host keypad => exact ih (m := { m with keypad }) untimed

/-! ## Two runs -/

/-- Of machines that step one after the other in two runs: where both put the same questions, they hear the
same. -/
def HearAlike (ms₁ ms₂ : List (Machine κ)) : Prop :=
  ∀ p ∈ ms₁.zip ms₂, p.1.asks = p.2.asks → p.1.heard = p.2.heard

namespace Alongside

variable {K D : Prop}

/-- What is not a step may be done to one of the machines alone. -/
theorem rest (h : Alongside K D m₁ m₂) (hrest : a.isStep = false) (spares : a.Spares K D) :
    Alongside K D m₁ (m₂.act a) := by
  cases a with
  | step => cases hrest
  | tick => exact { h with agree := ⟨{ h.agree.registers with }, h.agree.pixels⟩ }
  | redraw =>
    exact { h with agree := ⟨h.agree.registers, h.agree.pixels⟩, dirty := fun hD => absurd hD spares }
  | host keypad =>
    exact { h with agree := ⟨h.agree.registers, h.agree.pixels⟩, keypad := fun hK => absurd hK spares }

theorem rests (h : Alongside K D m₁ m₂) (hrests : ∀ a ∈ acts, a.isStep = false)
    (spares : ∀ a ∈ acts, a.Spares K D) : Alongside K D m₁ (m₂.run acts) := by
  induction acts generalizing m₂ with
  | nil => exact h
  | cons a acts ih =>
    obtain ⟨ha, hrests⟩ := List.forall_mem_cons.1 hrests
    obtain ⟨hspares, spares⟩ := List.forall_mem_cons.1 spares
    exact ih (h.rest ha hspares) hrests spares

/-- A step of both comes to the same, if it uses no timer and hears the same. -/
theorem step (h : Alongside K D m₁ m₂) (untimed : ∀ i, m₁.fetched? = some i → ¬ i.UsesTimers)
    (answers : K ∨ (m₁.asks = m₂.asks → m₁.heard = m₂.heard)) :
    m₁.outcome = m₂.outcome ∧ Alongside K D m₁.stepped m₂.stepped := by
  have hbyte : ∀ a, m₁.memory.byte a = m₂.memory.byte a := fun a => by rw [h.memory]
  have hasked : K → m₁.asked = m₂.asked := fun hK => h.agree.asked (fun a _ => hbyte a) (h.keypad hK)
  have hheard : m₁.heard = m₂.heard :=
    answers.elim (fun hK => congrArg answer (hasked hK)) fun hsame => hsame (h.agree.asks fun a _ => hbyte a)
  have hlock := h.agree.lockstep (fun a _ => hbyte a) (fun i hi => h.agree.sameInputs h.dialect h.random
    fun ⟨x, hx⟩ => absurd (hx ▸ trivial) (untimed i hi)) hheard
  have hafter := hlock.tandem
  exact ⟨hlock.outcome, {
    agree := hafter.agree
    memory := hafter.memory h.memory
    random := hafter.random h.random
    dialect := hafter.dialect h.dialect
    keypad := fun hK => by rw [keypad_stepped, keypad_stepped, hasked hK]
    dirty := fun hD => hafter.dirty (h.dirty hD) }⟩

/-- By induction on the actions of the first run: what is not a step is passed over in either run, and a step
of the first meets the next step of the second. -/
theorem run (h : Alongside K D m₁ m₂) (steps : acts₁.countP Action.isStep = acts₂.countP Action.isStep)
    (spares₁ : ∀ a ∈ acts₁, a.Spares K D) (spares₂ : ∀ a ∈ acts₂, a.Spares K D)
    (answers : K ∨ HearAlike (m₁.stations acts₁) (m₂.stations acts₂))
    (untimed : ∀ i, .ok i ∈ m₁.outcomes acts₁ → ¬ i.UsesTimers) :
    m₁.outcomes acts₁ = m₂.outcomes acts₂ ∧ Alongside K D (m₁.run acts₁) (m₂.run acts₂) := by
  induction acts₁ generalizing m₁ m₂ acts₂ with
  | nil =>
    have hrests : ∀ a ∈ acts₂, a.isStep = false := fun a ha =>
      Bool.eq_false_iff.2 (List.countP_eq_zero.1 steps.symm a ha)
    refine ⟨?_, h.rests hrests spares₂⟩
    rw [outcomes, outcomes, stations_rests hrests, stations]
  | cons a acts₁ ih =>
    obtain ⟨hspares, hrest⟩ := List.forall_mem_cons.1 spares₁
    cases hstep : a.isStep with
    | true =>
      rw [List.countP_cons_of_pos hstep] at steps
      obtain rfl : a = .step := by
        cases a with
        | step => rfl
        | _ => cases hstep
      have hpos : 0 < acts₂.countP Action.isStep := steps ▸ Nat.succ_pos _
      -- the second run does the rests before it comes to its own first step
      obtain ⟨rests, acts₂, rfl, hrests⟩ := exists_first_step hpos
      obtain ⟨hpassed, spares₂⟩ := List.forall_mem_append.1 spares₂
      have hcount : rests.countP Action.isStep = 0 := List.countP_eq_zero.2 fun a ha => by
        rw [hrests a ha]
        exact Bool.false_ne_true
      rw [List.countP_append, hcount, List.countP_cons_of_pos hstep, Nat.zero_add] at steps
      rw [stations_append, stations_rests hrests, List.nil_append, stations_step, stations_step, HearAlike,
        List.zip_cons_cons, List.forall_mem_cons] at answers
      obtain ⟨houtcome, hstepped⟩ := (h.rests hrests hpassed).step (not_usesTimers_of_fetched untimed)
        (answers.imp_right And.left)
      rw [outcomes_step] at untimed
      obtain ⟨houtcomes, hrun⟩ := ih hstepped (Nat.succ.inj steps) hrest (List.forall_mem_cons.1 spares₂).2
        (answers.imp_right And.right) fun i hi => untimed i (List.mem_cons_of_mem _ hi)
      rw [outcomes_rests hrests, outcomes_step, outcomes_step, houtcome, houtcomes, run_append]
      exact ⟨rfl, hrun⟩
    | false =>
      have hno : ¬ a.isStep = true := Bool.eq_false_iff.1 hstep
      rw [List.countP_cons_of_neg hno] at steps
      rw [stations_rest hstep] at answers
      rw [outcomes_rest hstep] at untimed ⊢
      exact ih (h.symm.rest hstep hspares).symm steps hrest spares₂ answers untimed

end Alongside

end Machine

/-! ## Schedulers -/

variable {κ δ : Type}

/-- What an event of a frame is as an action of the host, for a keypad that a refresh does not change. -/
def Event.actions : Event → List (Machine.Action κ)
  | refreshed | reset => []
  | executed _ => [.step]
  | ticked => [.tick]
  | drew _ => [.redraw]

theorem Event.countP_actions (κ : Type) (log : List Event) :
    (log.flatMap (actions : Event → List (Machine.Action κ))).countP Machine.Action.isStep =
      log.countP isExecuted := by
  induction log with
  | nil => rfl
  | cons e log ih =>
    rw [List.flatMap_cons, List.countP_append, ih, List.countP_cons, Nat.add_comm]
    cases e <;> rfl

theorem Event.spares_actions {log : List Event} {a : Machine.Action κ} (h : a ∈ log.flatMap Event.actions) :
    a.Spares True False := by
  obtain ⟨e, -, ha⟩ := List.mem_flatMap.1 h
  cases e with
  | refreshed | reset => exact absurd ha List.not_mem_nil
  | executed i =>
    obtain rfl := List.mem_singleton.1 ha
    trivial
  | ticked =>
    obtain rfl := List.mem_singleton.1 ha
    trivial
  | drew picture =>
    obtain rfl := List.mem_singleton.1 ha
    exact id

theorem Event.reset_notMem_batch (is : List Instruction) : Event.reset ∉ Event.batch is := by
  simp only [Event.batch, List.mem_cons, List.mem_map, reduceCtorEq, and_false, exists_false, or_self,
    not_false_eq_true]

section

variable [Keypad κ] [Display δ]

/-- A refresh leaves the keypad as it is. -/
def Keypad.Unaffected (κ : Type) [Keypad κ] : Prop :=
  ∀ pad pad' : κ, Keypad.refresh pad = .ok () pad' → pad' = pad

/-- A trace without a reset is a run of the machine, and what its steps come to was carried out. -/
theorem Session.Trace.run {s s' : Session κ δ} {log : List Event} (unaffected : Keypad.Unaffected κ)
    (trace : Session.Trace s log s') (noreset : .reset ∉ log) :
    s'.machine = s.machine.run (log.flatMap Event.actions) ∧
      ∀ i, .ok i ∈ s.machine.outcomes (log.flatMap Event.actions) → .executed i ∈ log := by
  induction trace with
  | nil => exact ⟨rfl, nofun⟩
  | @cons s s₁ s₂ e log happens rest ih =>
    obtain ⟨hmachine, houtcomes⟩ := ih fun hmem => noreset (List.mem_cons_of_mem e hmem)
    rw [hmachine]
    cases happens with
    | refreshed done =>
      obtain ⟨pad, hpad, rfl⟩ := Machine.onKeypad_eq_ok done
      obtain rfl := unaffected _ _ hpad
      exact ⟨rfl, fun i hi => List.mem_cons_of_mem _ (houtcomes i hi)⟩
    | @executed j machine done =>
      obtain rfl := Machine.stepped_of_ok done
      refine ⟨rfl, fun i hi => ?_⟩
      rcases List.mem_cons.1 hi with hfirst | hlater
      · obtain rfl := Except.ok.inj (hfirst.trans (Machine.outcome_of_ok done))
        exact List.mem_cons_self
      · exact List.mem_cons_of_mem _ (houtcomes i hlater)
    | ticked => exact ⟨rfl, fun i hi => List.mem_cons_of_mem _ (houtcomes i hi)⟩
    | drew asked done => exact ⟨rfl, fun i hi => List.mem_cons_of_mem _ (houtcomes i hi)⟩
    | reset => exact absurd List.mem_cons_self noreset

namespace Scheduler

open Session

variable {pace : Scheduler} {s s' : Session κ δ} {n : Nat} {log : List Event}

/-- The moments of a run: frames that completed, and perhaps the first instructions of another. -/
inductive Reaches (pace : Scheduler) (s : Session κ δ) : List Event → Session κ δ → Prop
  | frames {n : Nat} {log : List Event} {s' : Session κ δ} (done : Completed pace s n log s') :
      Reaches pace s log s'
  | within {n : Nat} {log : List Event} {is : List Instruction} {s₁ s' : Session κ δ}
      (done : Completed pace s n log s₁) (batch : Trace s₁ (Event.batch is) s')
      (short : is.length ≤ pace.instructionsPerTick) : Reaches pace s (log ++ Event.batch is) s'

theorem Frame.reset_notMem {r : EStateM.Result Stop (Session κ δ) Unit} (h : pace.Frame s log r) :
    .reset ∉ log := by
  cases h <;>
    simp only [List.mem_append, List.mem_singleton, Event.reset_notMem_batch, reduceCtorEq, or_self,
      List.not_mem_nil, not_false_eq_true]

theorem Completed.reset_notMem (h : Completed pace s n log s') : .reset ∉ log := by
  induction h with
  | none => exact List.not_mem_nil
  | next before ran frame ih => exact fun hmem => (List.mem_append.1 hmem).elim ih frame.reset_notMem

theorem Reaches.trace (h : Reaches pace s log s') : Trace s log s' := by
  cases h with
  | frames done => exact done.trace
  | within done batch short => exact done.trace.append batch

theorem Reaches.reset_notMem (h : Reaches pace s log s') : .reset ∉ log := by
  cases h with
  | frames done => exact done.reset_notMem
  | within done batch short =>
    exact fun hmem => (List.mem_append.1 hmem).elim done.reset_notMem (Event.reset_notMem_batch _)

end Scheduler

end

namespace Machine

variable [Keypad κ] {m m₁ m₂ : Machine κ}

/-- Equally many ticks leave equal timers, as long as the steps use none. -/
theorem registers_run_eq {K D : Prop} {acts₁ acts₂ : List (Action κ)}
    (h : Alongside K D (m.run acts₁) (m.run acts₂)) (same : m.outcomes acts₁ = m.outcomes acts₂)
    (untimed : ∀ i, .ok i ∈ m.outcomes acts₁ → ¬ i.UsesTimers)
    (ticks : acts₁.countP Action.isTick = acts₂.countP Action.isTick) :
    (m.run acts₁).registers = (m.run acts₂).registers := by
  obtain ⟨hdelay₁, hsound₁⟩ := timers_run untimed
  have untimed₂ : ∀ i, .ok i ∈ m.outcomes acts₂ → ¬ i.UsesTimers := same ▸ untimed
  obtain ⟨hdelay₂, hsound₂⟩ := timers_run untimed₂
  rw [ticks, ← hdelay₂] at hdelay₁
  rw [ticks, ← hsound₂] at hsound₁
  exact h.agree.registers.eq hdelay₁ hsound₁

/-- **The two clocks are independent.** Two orders of equally many steps, among ticks and whatever else the
host does, come to the same step by step and leave machines that are equal but for the timers. This is so if no
step of the first uses a timer and the keypad gives the same answers, as it does when the host leaves it alone.
With equally many ticks, the timers are equal too. So schedulers of any two paces have the same machine once
they have carried out equally many instructions. -/
theorem clocks_independent (κ δ₁ δ₂ : Type) [Keypad κ] [Display δ₁] [Display δ₂] :
    (∀ (m : Machine κ) (acts₁ acts₂ : List (Action κ)),
      acts₁.countP Action.isStep = acts₂.countP Action.isStep →
      ((∀ k, .host k ∉ acts₁ ∧ .host k ∉ acts₂) ∨ HearAlike (m.stations acts₁) (m.stations acts₂)) →
      (∀ i, .ok i ∈ m.outcomes acts₁ → ¬ i.UsesTimers) →
        m.outcomes acts₁ = m.outcomes acts₂ ∧
        Alongside (∀ k, .host k ∉ acts₁ ∧ .host k ∉ acts₂) (.redraw ∉ acts₁ ∧ .redraw ∉ acts₂)
          (m.run acts₁) (m.run acts₂) ∧
        (acts₁.countP Action.isTick = acts₂.countP Action.isTick →
          (m.run acts₁).registers = (m.run acts₂).registers ∧
          ((∀ a ∈ acts₁ ++ acts₂, a = .step ∨ a = .tick) → m.run acts₁ = m.run acts₂))) ∧
    ∀ (pace₁ pace₂ : Scheduler) (s₁ t₁ : Session κ δ₁) (s₂ t₂ : Session κ δ₂) (log₁ log₂ : List Event),
      s₁.machine = s₂.machine → Keypad.Unaffected κ →
      pace₁.Reaches s₁ log₁ t₁ → pace₂.Reaches s₂ log₂ t₂ →
      log₁.countP Event.isExecuted = log₂.countP Event.isExecuted →
      (∀ i, .executed i ∈ log₁ → ¬ i.UsesTimers) →
        Alongside True False t₁.machine t₂.machine := by
  constructor
  · intro m acts₁ acts₂ steps answers untimed
    have hstart : Alongside (∀ k, .host k ∉ acts₁ ∧ .host k ∉ acts₂) (.redraw ∉ acts₁ ∧ .redraw ∉ acts₂)
        m m := .refl m
    obtain ⟨houtcomes, hrun⟩ := hstart.run steps
      (fun _ ha => Action.spares_of_mem ha (fun hosts k => (hosts k).1) And.left)
      (fun _ ha => Action.spares_of_mem ha (fun hosts k => (hosts k).2) And.right) answers untimed
    refine ⟨houtcomes, hrun, fun ticks => ?_⟩
    have hregisters := registers_run_eq hrun houtcomes untimed ticks
    refine ⟨hregisters, fun plain => ?_⟩
    -- with steps and ticks alone, keypad and redraw count
    have hother : ∀ a, a ≠ .step → a ≠ .tick → a ∉ acts₁ ∧ a ∉ acts₂ := fun a hstep htick =>
      not_or.1 fun hmem => (plain a (List.mem_append.2 hmem)).elim hstep htick
    exact hrun.eq (fun k => hother (.host k) nofun nofun) (hother .redraw nofun nofun) hregisters
  · intro pace₁ pace₂ s₁ t₁ s₂ t₂ log₁ log₂ start unaffected reaches₁ reaches₂ executed untimed
    obtain ⟨hmachine₁, houtcomes₁⟩ := reaches₁.trace.run unaffected reaches₁.reset_notMem
    obtain ⟨hmachine₂, -⟩ := reaches₂.trace.run unaffected reaches₂.reset_notMem
    have hsteps := (Event.countP_actions κ log₁).trans (executed.trans (Event.countP_actions κ log₂).symm)
    rw [hmachine₁, hmachine₂, ← start]
    have hrun := (Alongside.refl s₁.machine).run hsteps (fun _ => Event.spares_actions)
      (fun _ => Event.spares_actions) (.inl trivial) fun i hi => untimed i (houtcomes₁ i hi)
    exact hrun.2

/-- One instruction before a tick and after it, and one in a frame of one and in a frame of two. -/
theorem clocks_independent_addByte :
    let m : Machine ScriptedKeypad := .withOpcode 0x7001 (.holding [])
    let s : Session ScriptedKeypad CountingDisplay := ⟨m, {}⟩
    m.run [.tick, .step] = m.run [.step, .tick] ∧
      ∃ t₁ t₂, Scheduler.Reaches ⟨2, 1⟩ s (Event.batch [.addByte 0 1]) t₁ ∧
        Scheduler.runFrame ⟨1, 1⟩ s = .ok () t₂ ∧ t₁.machine.registers.v = t₂.machine.registers.v := by
  intro m s
  have hi : m.instruction? = some (.addByte 0 1) := instruction?_withOpcode _ _
  have hi' : m.tickTimers.instruction? = some (.addByte 0 1) := instruction?_tickTimers.trans hi
  have hstep := step_done (a := .silence) (k := .holding []) (by decide) hi trivial rfl rfl
  have hstep' :=
    step_done (m := m.tickTimers) (a := .silence) (k := .holding []) (by decide) hi' trivial rfl rfl
  obtain ⟨hruns, hschedulers⟩ := clocks_independent ScriptedKeypad CountingDisplay CountingDisplay
  constructor
  · let early : List (Action ScriptedKeypad) := [.tick, .step]
    let late : List (Action ScriptedKeypad) := [.step, .tick]
    have hplain : ∀ a ∈ early ++ late, a = .step ∨ a = .tick :=
      List.forall_mem_cons.2 ⟨.inr rfl, List.forall_mem_cons.2 ⟨.inl rfl,
        List.forall_mem_cons.2 ⟨.inl rfl, List.forall_mem_singleton.2 (.inr rfl)⟩⟩⟩
    have hhost : ∀ k, .host k ∉ early ∧ .host k ∉ late := fun k =>
      not_or.1 fun hmem => (hplain (.host k) (List.mem_append.2 hmem)).elim nofun nofun
    have huntimed : ∀ i, .ok i ∈ m.outcomes early → ¬ i.UsesTimers := fun i hmem => by
      obtain rfl := Except.ok.inj ((List.mem_singleton.1 hmem).trans (outcome_of_ok hstep'))
      exact id
    exact ((hruns m early late rfl (.inl hhost) huntimed).2.2 rfl).2 hplain
  · have htrace : Session.Trace s (Event.batch [.addByte 0 1]) _ :=
      .cons (.refreshed rfl) (.cons (.executed hstep) .nil)
    have hpart : Scheduler.Reaches ⟨2, 1⟩ s (Event.batch [.addByte 0 1]) _ := .within .none htrace (by decide)
    have hframe : Scheduler.runFrame ⟨1, 1⟩ s = _ :=
      Scheduler.runFrame_eq_endFrame rfl (Scheduler.runBatch_one hstep)
    rw [Scheduler.endFrame_drawn rfl rfl] at hframe
    obtain ⟨log, hwhole⟩ := Scheduler.frame_of_run hframe
    have hsame := hschedulers ⟨2, 1⟩ ⟨1, 1⟩ s _ s _ _ _ rfl
      (fun pad pad' h => (EStateM.Result.ok.inj h).2.symm) hpart (.frames (.next .none hframe hwhole))
      hwhole.counts.1.symm fun i hmem => by
        rcases List.mem_cons.1 hmem with hrefreshed | hexecuted
        · cases hrefreshed
        · obtain rfl := Event.executed.inj (List.mem_singleton.1 hexecuted)
          exact id
    exact ⟨_, _, hpart, hframe, hsame.agree.registers.v⟩

end Machine

end Chip8
