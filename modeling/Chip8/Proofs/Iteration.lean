import Chip8.Keyboard.Terminal
import Chip8.Proofs.Frames
import Chip8.Proofs.Invariant

/-!
# Proofs/Iteration — a run is frame after frame until quit

`Scheduler.frames` performs a number of frames in order and looks at nothing else. A run is compared with it:
`Scheduler.Passes` lists the ways a run can end, each in terms of the frames that completed and of the quit
signal before each of them, and `run_iff_passes` says that it ends in one of these ways and in which. What the
completed frames consist of is counted on their events (`Completed.counts`), and what a frame that stops
contributes is read off its outcome (`Frame.contribution`). A quit flag that the keypad raises stays raised
(`Keypad.Latch`), so it is seen at the start of the next frame at the latest.
-/

namespace Chip8

variable {κ δ : Type}

/-- A flag that the keypad may raise and does not lower, whatever it answers. -/
structure Keypad.Latch [Keypad κ] (raised : κ → Bool) : Prop where
  isDown {pad pad' : κ} {code : Byte} {held : Bool} (up : raised pad = true)
    (answered : Keypad.isDown code pad = .ok held pad') : raised pad' = true
  awaitPress {pad pad' : κ} {code : Byte} (up : raised pad = true)
    (answered : Keypad.awaitPress pad = .ok code pad') : raised pad' = true
  refresh {pad pad' : κ} {u : Unit} (up : raised pad = true)
    (answered : Keypad.refresh pad = .ok u pad') : raised pad' = true

namespace Keyboard.TerminalKeypad

/-! ## The quit flag of a terminal -/

variable {pad : TerminalKeypad}

theorem quit_handleKey (event : KeyEvent) (h : pad.quit = true) : (pad.handleKey event).2.quit = true := by
  rw [handleKey]
  split
  · rfl
  · split
    · rfl
    · split <;> exact h
  · exact h

theorem quit_handleKeys (events : List KeyEvent) (h : pad.quit = true) :
    (pad.handleKeys events).2.quit = true := by
  induction events generalizing pad with
  | nil => exact h
  | cons event events ih => exact ih (quit_handleKey event h)

theorem quit_drain (h : pad.quit = true) : pad.drain.2.quit = true := quit_handleKeys pad.inbox h

/-- **The user's wish to stop is not forgotten.** -/
theorem latch_quit : Keypad.Latch TerminalKeypad.quit where
  isDown up answered := by
    obtain ⟨-, rfl⟩ := EStateM.Result.ok.inj answered
    exact quit_drain up
  awaitPress {pad _ _} up answered := by
    have hrefused : (Keypad.awaitPress pad : EStateM.Result IoError TerminalKeypad Byte) =
        .error quitRequested pad := if_pos up
    rw [hrefused] at answered
    cases answered
  refresh up answered := by
    obtain ⟨-, rfl⟩ := EStateM.Result.ok.inj answered
    exact quit_drain up

end Keyboard.TerminalKeypad

namespace Scheduler

open Session

variable [Keypad κ] [Display δ] {pace : Scheduler} {quit : QuitSignal κ δ} {s s' s₁ : Session κ δ}
  {n limit fuel : Nat}

/-! ## Frames in order -/

/-- `n` frames, one after the other. -/
def frames (pace : Scheduler) : Nat → EStateM Stop (Session κ δ) Unit
  | 0 => pure ()
  | n + 1 => do
    frames pace n
    runFrame pace

/-- Quit is not raised before any of the first `n` frames. -/
def Lowered (pace : Scheduler) (quit : QuitSignal κ δ) (s : Session κ δ) (n : Nat) : Prop :=
  ∀ k < n, ∀ s', frames pace k s = .ok () s' → quit k s'.machine.keypad s'.display = false

theorem frames_succ_iff : frames pace (n + 1) s = .ok () s' ↔
    ∃ s₁, frames pace n s = .ok () s₁ ∧ runFrame pace s₁ = .ok () s' := by
  rw [frames, Machine.bind_run]
  cases hframes : frames pace n s with
  | ok u s₁ =>
    constructor
    · intro h
      exact ⟨s₁, rfl, h⟩
    · rintro ⟨s₂, heq, h⟩
      rwa [(EStateM.Result.ok.inj heq).2]
  | error stop s₁ => exact ⟨nofun, fun ⟨_, heq, _⟩ => nomatch heq⟩

theorem lowered_zero : Lowered pace quit s 0 := fun k hk => absurd hk (Nat.not_lt_zero k)

theorem lowered_succ (done : frames pace n s = .ok () s₁) (h : Lowered pace quit s n)
    (hnow : quit n s₁.machine.keypad s₁.display = false) : Lowered pace quit s (n + 1) := by
  intro k hk s' hs'
  rcases Nat.lt_succ_iff_lt_or_eq.1 hk with hlt | rfl
  · exact h k hlt s' hs'
  · obtain ⟨-, rfl⟩ := EStateM.Result.ok.inj (done.symm.trans hs')
    exact hnow

/-! ## The ends of a run -/

/-- The outcomes of a run of at most `limit` frames. -/
inductive Passes (pace : Scheduler) (quit : QuitSignal κ δ) (s : Session κ δ) (limit : Nat) :
    EStateM.Result Stop (Session κ δ) (Option Nat) → Prop
  /-- Quit is raised at the start of a frame: it does not begin. -/
  | raised {n : Nat} {s' : Session κ δ} (within : n < limit) (done : frames pace n s = .ok () s')
      (lowered : Lowered pace quit s n) (raised : quit n s'.machine.keypad s'.display = true) :
      Passes pace quit s limit (.ok (some n) s')
  /-- A frame ends because the user wants to stop. -/
  | interrupted {n : Nat} {s₁ s' : Session κ δ} {cause : IoError} (within : n < limit)
      (done : frames pace n s = .ok () s₁) (lowered : Lowered pace quit s (n + 1))
      (failed : runFrame pace s₁ = .error (.error (.io cause)) s') (kind : cause.kind = .interrupted) :
      Passes pace quit s limit (.ok (some n) s')
  /-- A frame fails in any other way. -/
  | failed {n : Nat} {s₁ s' : Session κ δ} {stop : Stop} (within : n < limit)
      (done : frames pace n s = .ok () s₁) (lowered : Lowered pace quit s (n + 1))
      (failed : runFrame pace s₁ = .error stop s')
      (other : ∀ cause, stop = .error (.io cause) → cause.kind ≠ .interrupted) :
      Passes pace quit s limit (.error stop s')
  /-- All frames complete, and the run has not ended yet. -/
  | unended {s' : Session κ δ} (done : frames pace limit s = .ok () s')
      (lowered : Lowered pace quit s limit) : Passes pace quit s limit (.ok none s')

theorem isQuit_eq_true_iff {stop : Stop} :
    stop.isQuit = true ↔ ∃ cause, stop = .error (.io cause) ∧ cause.kind = .interrupted := by
  constructor
  · intro h
    match stop, h with
    | .error (.io cause), h => exact ⟨cause, rfl, of_decide_eq_true h⟩
  · rintro ⟨cause, rfl, hkind⟩
    exact decide_eq_true hkind

/-- One pass of the loop. -/
theorem runFrom_succ (n fuel : Nat) (s : Session κ δ) :
    runFrom pace quit n (fuel + 1) s =
      if quit n s.machine.keypad s.display then .ok (some n) s
      else match runFrame pace s with
        | .ok _ s' => runFrom pace quit (n + 1) fuel s'
        | .error stop s' => if stop.isQuit then .ok (some n) s' else .error stop s' := by
  cases hquit : quit n s.machine.keypad s.display <;> cases hframe : runFrame pace s <;>
    simp only [runFrom, hquit, hframe, if_true, Bool.false_eq_true, if_false]

/-- By induction on the frames that are left: each pass adds one to the frames done. -/
theorem runFrom_passes (done : frames pace n s = .ok () s₁) (lowered : Lowered pace quit s n) (fuel : Nat) :
    Passes pace quit s (n + fuel) (runFrom pace quit n fuel s₁) := by
  induction fuel generalizing n s₁ with
  | zero => exact .unended done lowered
  | succ fuel ih =>
    have hwithin : n < n + (fuel + 1) := by omega
    rw [runFrom_succ]
    cases hquit : quit n s₁.machine.keypad s₁.display with
    | true => exact .raised hwithin done lowered hquit
    | false =>
      have hlowered := lowered_succ done lowered hquit
      rw [if_neg Bool.false_ne_true]
      cases hframe : runFrame pace s₁ with
      | ok u s₂ =>
        rw [show n + (fuel + 1) = n + 1 + fuel by omega]
        exact ih (frames_succ_iff.2 ⟨s₁, done, hframe⟩) hlowered
      | error stop s₂ =>
        cases hstop : stop.isQuit with
        | true =>
          obtain ⟨cause, rfl, hkind⟩ := isQuit_eq_true_iff.1 hstop
          simp only [hstop, if_true]
          exact .interrupted hwithin done hlowered hframe hkind
        | false =>
          simp only [hstop, Bool.false_eq_true, if_false]
          refine .failed hwithin done hlowered hframe fun cause heq hkind => ?_
          exact Bool.false_ne_true (hstop.symm.trans (isQuit_eq_true_iff.2 ⟨cause, heq, hkind⟩))

/-- A run goes on after frames that complete as if it began there. -/
theorem run_eq_runFrom (done : frames pace n s = .ok () s') (lowered : Lowered pace quit s n) (fuel : Nat) :
    run pace quit (n + fuel) s = runFrom pace quit n fuel s' := by
  induction n generalizing s' fuel with
  | zero =>
    obtain ⟨-, rfl⟩ := EStateM.Result.ok.inj done
    rw [Nat.zero_add, run]
  | succ n ih =>
    obtain ⟨s₁, hdone, hframe⟩ := frames_succ_iff.1 done
    have hlowered : Lowered pace quit s n := fun k hk => lowered k (Nat.lt_succ_of_lt hk)
    rw [show n + 1 + fuel = n + (fuel + 1) by omega, ih hdone hlowered, runFrom_succ,
      lowered n (Nat.lt_succ_self n) s₁ hdone, if_neg Bool.false_ne_true, hframe]

theorem run_raised (within : n < limit) (done : frames pace n s = .ok () s') (lowered : Lowered pace quit s n)
    (raised : quit n s'.machine.keypad s'.display = true) : run pace quit limit s = .ok (some n) s' := by
  obtain ⟨fuel, rfl⟩ := Nat.exists_eq_add_of_lt within
  rw [Nat.add_assoc, run_eq_runFrom done lowered, runFrom_succ, if_pos raised]

/-- A frame that stops is the last one. -/
theorem run_stopped {stop : Stop} (within : n < limit) (done : frames pace n s = .ok () s₁)
    (lowered : Lowered pace quit s (n + 1)) (failed : runFrame pace s₁ = .error stop s') :
    run pace quit limit s = if stop.isQuit then .ok (some n) s' else .error stop s' := by
  obtain ⟨fuel, rfl⟩ := Nat.exists_eq_add_of_lt within
  have hlowered : Lowered pace quit s n := fun k hk => lowered k (Nat.lt_succ_of_lt hk)
  rw [Nat.add_assoc, run_eq_runFrom done hlowered, runFrom_succ, lowered n (Nat.lt_succ_self n) s₁ done,
    if_neg Bool.false_ne_true, failed]

/-- **A run ends in one of the listed ways, and its frames decide in which.** -/
theorem run_iff_passes {r : EStateM.Result Stop (Session κ δ) (Option Nat)} :
    run pace quit limit s = r ↔ Passes pace quit s limit r := by
  constructor
  · rintro rfl
    have hlowered : Lowered pace quit s 0 := lowered_zero
    have h := runFrom_passes rfl hlowered limit
    rwa [Nat.zero_add] at h
  · intro h
    cases h with
    | raised within done lowered raised => exact run_raised within done lowered raised
    | interrupted within done lowered failed kind =>
      rw [run_stopped within done lowered failed, if_pos (isQuit_eq_true_iff.2 ⟨_, rfl, kind⟩)]
    | failed within done lowered failed other =>
      rw [run_stopped within done lowered failed, if_neg fun hstop => ?_]
      obtain ⟨cause, heq, hkind⟩ := isQuit_eq_true_iff.1 hstop
      exact other cause heq hkind
    | unended done lowered => exact run_eq_runFrom done lowered 0

/-! ## What the frames consist of -/

/-- `n` frames that complete, with the events of all of them. -/
inductive Completed (pace : Scheduler) (s : Session κ δ) : Nat → List Event → Session κ δ → Prop
  | none : Completed pace s 0 [] s
  | next {n : Nat} {log events : List Event} {s₁ s' : Session κ δ} (before : Completed pace s n log s₁)
      (ran : runFrame pace s₁ = .ok () s') (frame : pace.Frame s₁ events (.ok () s')) :
      Completed pace s (n + 1) (log ++ events) s'

theorem frames_events (h : frames pace n s = .ok () s') : ∃ log, Completed pace s n log s' := by
  induction n generalizing s' with
  | zero =>
    obtain ⟨-, rfl⟩ := EStateM.Result.ok.inj h
    exact ⟨[], .none⟩
  | succ n ih =>
    obtain ⟨s₁, hdone, hframe⟩ := frames_succ_iff.1 h
    obtain ⟨log, hlog⟩ := ih hdone
    obtain ⟨events, hevents⟩ := frame_of_run hframe
    exact ⟨log ++ events, .next hlog hframe hevents⟩

theorem Completed.trace {log : List Event} (h : Completed pace s n log s') : Trace s log s' := by
  induction h with
  | none => exact .nil
  | next before ran frame ih => exact ih.append frame.trace

/-- A frame that completes has carried out all of its instructions, and ticked once. -/
theorem Frame.counts {log : List Event} (h : pace.Frame s log (.ok () s')) :
    log.countP Event.isExecuted = pace.instructionsPerTick ∧ log.count .ticked = 1 := by
  cases h with
  | still trace whole settled => exact ⟨(Event.countP_batch_ticked _).trans whole, Event.count_batch_ticked _⟩
  | drawn trace whole asked done =>
    rw [List.countP_append, List.count_append, Event.countP_batch_ticked, Event.count_batch_ticked, whole]
    exact ⟨rfl, rfl⟩

theorem Completed.counts {log : List Event} (h : Completed pace s n log s') :
    log.countP Event.isExecuted = n * pace.instructionsPerTick ∧ log.count .ticked = n := by
  induction h with
  | none => exact ⟨(Nat.zero_mul _).symm, rfl⟩
  | next before ran frame ih =>
    rw [List.countP_append, List.count_append, ih.1, ih.2, frame.counts.1, frame.counts.2, Nat.succ_mul]
    exact ⟨rfl, rfl⟩

/-- What a frame that stops has done: less than its instructions and no tick, or else all of them and the
tick, and then it is the display that failed. It has drawn nothing. -/
theorem Frame.contribution {log : List Event} {stop : Stop} (hpos : 0 < pace.instructionsPerTick)
    (h : pace.Frame s log (.error stop s')) :
    (∀ picture, .drew picture ∉ log) ∧
      (log.countP Event.isExecuted < pace.instructionsPerTick ∧ log.count .ticked = 0 ∧
          s'.display = s.display ∨
        log.countP Event.isExecuted = pace.instructionsPerTick ∧ log.count .ticked = 1 ∧
          ∃ screen cause, stop = .error (.io cause) ∧
            Display.draw screen s.display = .error cause s'.display) := by
  cases h with
  | unrefreshed failed => exact ⟨fun _ => List.not_mem_nil, .inl ⟨hpos, rfl, rfl⟩⟩
  | stopped trace short failed =>
    refine ⟨Event.drew_notMem_batch _, .inl ⟨?_, List.count_eq_zero.2 (Event.ticked_notMem_batch _), rfl⟩⟩
    rwa [Event.countP_batch]
  | undrawn trace whole asked failed =>
    refine ⟨fun picture hmem => ?_, .inr ⟨(Event.countP_batch_ticked _).trans whole,
      Event.count_batch_ticked _, _, _, rfl, failed⟩⟩
    rcases List.mem_append.1 hmem with hmem | hmem
    · exact Event.drew_notMem_batch _ picture hmem
    · exact nomatch List.mem_singleton.1 hmem

/-! ## A flag of the keypad -/

section

variable {raised : κ → Bool}

theorem latched_question (hlatch : Keypad.Latch raised) {m : Machine κ} {i : Instruction} {answer : KeyAnswer}
    {pad : κ} (up : raised m.keypad = true) (answered : m.question i m.keypad = .ok answer pad) :
    raised pad = true := by
  cases i with
  | skipKeyDown x | skipKeyUp x =>
    obtain ⟨held, hask, -⟩ := Machine.map_eq_ok answered
    exact hlatch.isDown up hask
  | awaitKey x =>
    obtain ⟨code, hask, -⟩ := Machine.map_eq_ok answered
    exact hlatch.awaitPress up hask
  | _ =>
    obtain ⟨-, rfl⟩ := EStateM.Result.ok.inj answered
    exact up

theorem latched_refreshInput (hlatch : Keypad.Latch raised) {m m' : Machine κ} (up : raised m.keypad = true)
    (done : Machine.refreshInput m = .ok () m') : raised m'.keypad = true := by
  obtain ⟨pad, hask, rfl⟩ := Machine.onKeypad_eq_ok done
  exact hlatch.refresh up hask

theorem latched_step (hlatch : Keypad.Latch raised) {m m' : Machine κ} {i : Instruction}
    (up : raised m.keypad = true) (done : Machine.step m = .ok i m') : raised m'.keypad = true := by
  cases Machine.steps_of_run done with
  | done reach fetched fits accepted answered =>
    rw [Machine.keypad_proceed]
    exact latched_question hlatch up answered

theorem latched_happens (hlatch : Keypad.Latch raised) {e : Event} (up : raised s.machine.keypad = true)
    (happens : s.Happens e s') : raised s'.machine.keypad = true := by
  cases happens with
  | refreshed done => exact latched_refreshInput hlatch up done
  | executed done => exact latched_step hlatch up done
  | ticked => exact up
  | reset =>
    -- Opened first: otherwise whole machines are compared, and the memory at power-on is evaluated.
    rw [Machine.reset]
    exact up
  | drew asked done => exact up

theorem latched_trace (hlatch : Keypad.Latch raised) {log : List Event} (up : raised s.machine.keypad = true)
    (trace : Trace s log s') : raised s'.machine.keypad = true :=
  trace.keeps (P := fun _ s => raised s.machine.keypad = true) (latched_happens hlatch) [] up

/-- The keypad raises the flag as it takes in what happened: it is raised when the frame completes. -/
theorem latched_frame (hlatch : Keypad.Latch raised) {pad : κ} {log : List Event}
    (answered : Keypad.refresh s.machine.keypad = .ok () pad) (up : raised pad = true)
    (frame : pace.Frame s log (.ok () s')) : raised s'.machine.keypad = true := by
  have hrefresh : Machine.refreshInput s.machine = .ok () { s.machine with keypad := pad } := by
    rw [Machine.refreshInput, Machine.onKeypad, answered]
  have hlog : ∃ rest, log = .refreshed :: rest := by
    cases frame with
    | still | drawn => exact ⟨_, rfl⟩
  obtain ⟨rest, rfl⟩ := hlog
  cases frame.trace with
  | cons happens rest =>
    cases happens with
    | refreshed done =>
      obtain ⟨-, rfl⟩ := EStateM.Result.ok.inj (hrefresh.symm.trans done)
      exact latched_trace hlatch up rest

end

/-! ## The run of a configuration -/

/-- **A run is frame after frame until quit.** It ends in one of the ways `Passes` lists. Quit at its start
leaves everything as it was; quit raised by the keypad at the start of a frame is acted on after that frame.
The frames that complete carry out as many instructions and ticks as the configuration asks for, and one that
stops has drawn nothing, and ticked only if it is the display that failed. -/
theorem run_iterates (c : Config) (quit : QuitSignal κ δ) (s : Session κ δ) :
    (∀ limit r, run (ofConfig c) quit limit s = r ↔ Passes (ofConfig c) quit s limit r) ∧
    (∀ limit, quit 0 s.machine.keypad s.display = true →
      run (ofConfig c) quit (limit + 1) s = .ok (some 0) s) ∧
    (∀ (raised : κ → Bool) (n : Nat) (s₁ s' : Session κ δ) (pad : κ), Keypad.Latch raised →
      (∀ n pad d, raised pad = true → quit n pad d = true) →
      frames (ofConfig c) n s = .ok () s₁ → Lowered (ofConfig c) quit s (n + 1) →
      Keypad.refresh s₁.machine.keypad = .ok () pad → raised pad = true →
      runFrame (ofConfig c) s₁ = .ok () s' →
      ∀ limit, n + 1 < limit → run (ofConfig c) quit limit s = .ok (some (n + 1)) s') ∧
    (∀ n s', frames (ofConfig c) n s = .ok () s' →
      ∃ log, Completed (ofConfig c) s n log s' ∧ Trace s log s' ∧
      log.countP Event.isExecuted = n * max 1 (c.instructionsPerSecond.toNat / max 1 c.timerHz.toNat) ∧
      log.count .ticked = n) ∧
    (∀ (s₁ s' : Session κ δ) (stop : Stop), runFrame (ofConfig c) s₁ = .error stop s' →
      ∃ log, (ofConfig c).Frame s₁ log (.error stop s') ∧
      (∀ picture, .drew picture ∉ log) ∧
      (log.countP Event.isExecuted < max 1 (c.instructionsPerSecond.toNat / max 1 c.timerHz.toNat) ∧
          log.count .ticked = 0 ∧ s'.display = s₁.display ∨
        log.countP Event.isExecuted = max 1 (c.instructionsPerSecond.toNat / max 1 c.timerHz.toNat) ∧
          log.count .ticked = 1 ∧ ∃ screen cause, stop = .error (.io cause) ∧
            Display.draw screen s₁.display = .error cause s'.display)) := by
  refine ⟨fun limit r => run_iff_passes, ?_, ?_, ?_, ?_⟩
  · intro limit hquit
    exact run_raised (Nat.succ_pos limit) rfl lowered_zero hquit
  · intro raised n s₁ s' pad hlatch hsignal hdone hlowered hrefresh hup hframe limit hlimit
    obtain ⟨log, hlog⟩ := frame_of_run hframe
    have hraised : raised s'.machine.keypad = true := latched_frame hlatch hrefresh hup hlog
    exact run_raised hlimit (frames_succ_iff.2 ⟨s₁, hdone, hframe⟩) hlowered (hsignal _ _ _ hraised)
  · intro n s' hdone
    obtain ⟨log, hlog⟩ := frames_events hdone
    exact ⟨log, hlog, hlog.trace, hlog.counts⟩
  · intro s₁ s' stop hframe
    obtain ⟨log, hlog⟩ := frame_of_run hframe
    exact ⟨log, hlog, hlog.contribution c.instructionsPerTick_pos⟩

/-- Escape arrives on a terminal while the program jumps on the spot: the next frame takes it in and is the
last one. -/
theorem run_iterates_escape :
    let pad : Keyboard.TerminalKeypad := { keymap := .empty, inbox := [⟨.escape, false, false, false⟩] }
    let s : Session Keyboard.TerminalKeypad CountingDisplay := ⟨.withOpcode 0x1200 pad, {}⟩
    let pace := ofConfig { instructionsPerSecond := 1 }
    ∃ s', runFrame pace s = .ok () s' ∧ run pace (fun _ pad _ => pad.quit) 5 s = .ok (some 1) s' := by
  intro pad s pace
  have hrefresh : Machine.refreshInput s.machine = .ok () (.withOpcode 0x1200 pad.drain.2) := rfl
  have hi : (Machine.withOpcode 0x1200 pad.drain.2).instruction? = some (.jump 0x200) :=
    Machine.instruction?_withOpcode _ _
  have hstep := Machine.step_done (a := .silence) (k := pad.drain.2) (by decide) hi trivial rfl rfl
  have hframe : runFrame pace s = _ := runFrame_eq_endFrame hrefresh (runBatch_one hstep)
  rw [endFrame_drawn rfl rfl] at hframe
  have hlowered : Lowered pace (fun _ pad _ => pad.quit) s 1 := lowered_succ rfl lowered_zero rfl
  obtain ⟨-, -, hkeypad, -, -⟩ := run_iterates { instructionsPerSecond := 1 } (fun _ pad _ => pad.quit) s
  exact ⟨_, hframe, hkeypad Keyboard.TerminalKeypad.quit 0 s _ pad.drain.2
    Keyboard.TerminalKeypad.latch_quit (fun _ _ _ h => h) rfl hlowered rfl rfl hframe 5 (by decide)⟩

end Scheduler

end Chip8
