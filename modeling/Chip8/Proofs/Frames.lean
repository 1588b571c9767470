import Chip8.Proofs.Steps
import Chip8.Scheduler

/-!
# Proofs/Frames — what happens in a frame, one thing after the other

A session changes by single events: the keypad takes in what happened on the host, an instruction is
carried out, the timers tick, a picture is drawn, the machine is reset (`Session.Happens`). A `Session.Trace`
is a sequence of them. A frame is such a sequence of a fixed form that breaks off where the keypad, an
instruction or the display fails; `Scheduler.Frame` lists the five ways it can end, each with the events that
completed, and `runFrame_frame` says that there is no other.
-/

namespace Chip8

/-- A picture: the pixels of a machine's screen. -/
abbrev Picture : Type := Grid Bool screenWidth screenHeight

/-- What happens in a session. -/
inductive Event where
  /-- The keypad took in what had happened on the host. -/
  | refreshed
  /-- An instruction was carried out. -/
  | executed (i : Instruction)
  /-- The timers ticked. -/
  | ticked
  /-- The display drew a picture. -/
  | drew (picture : Picture)
  /-- The machine went back to power-on. -/
  | reset
deriving DecidableEq

/-- Whether an instruction was carried out. -/
def Event.isExecuted : Event → Bool
  | executed _ => true
  | _ => false

/-- A frame up to its last instruction. -/
def Event.batch (is : List Instruction) : List Event := .refreshed :: is.map .executed

theorem Event.countP_batch (is : List Instruction) :
    (Event.batch is).countP Event.isExecuted = is.length := by
  have hmap : (is.map Event.executed).countP Event.isExecuted = (is.map Event.executed).length :=
    List.countP_eq_length.2 fun e he => by
      obtain ⟨i, -, rfl⟩ := List.mem_map.1 he
      rfl
  rw [Event.batch, List.countP_cons_of_neg Bool.false_ne_true, hmap, List.length_map]

theorem Event.ticked_notMem_batch (is : List Instruction) : Event.ticked ∉ Event.batch is := by
  simp only [Event.batch, List.mem_cons, List.mem_map, reduceCtorEq, and_false, exists_false, or_self,
    not_false_eq_true]

theorem Event.drew_notMem_batch (is : List Instruction) (picture : Picture) :
    .drew picture ∉ Event.batch is := by
  simp only [Event.batch, List.mem_cons, List.mem_map, reduceCtorEq, and_false, exists_false, or_self,
    not_false_eq_true]

theorem Event.countP_batch_ticked (is : List Instruction) :
    (Event.batch is ++ [Event.ticked]).countP Event.isExecuted = is.length := by
  rw [List.countP_append, Event.countP_batch]
  rfl

theorem Event.count_batch_ticked (is : List Instruction) :
    (Event.batch is ++ [Event.ticked]).count Event.ticked = 1 := by
  rw [List.count_append, List.count_eq_zero.2 (Event.ticked_notMem_batch is)]
  rfl

variable {κ δ : Type}

namespace Session

/-! ## Single events -/

/-- One thing happens in a session, and completes. -/
inductive Happens [Keypad κ] [Display δ] (s : Session κ δ) : Event → Session κ δ → Prop
  | refreshed {machine : Machine κ} (done : Machine.refreshInput s.machine = .ok () machine) :
      Happens s .refreshed { s with machine }
  | executed {i : Instruction} {machine : Machine κ} (done : Machine.step s.machine = .ok i machine) :
      Happens s (.executed i) { s with machine }
  | ticked : Happens s .ticked { s with machine := s.machine.tickTimers }
  /-- The request to redraw is settled before the drawing. -/
  | drew {display : δ} (asked : s.machine.screen.dirty = true)
      (done : Display.draw s.machine.takeRedraw.2.screen s.display = .ok () display) :
      Happens s (.drew s.machine.screen.pixels) { machine := s.machine.takeRedraw.2, display }
  | reset : Happens s .reset { s with machine := s.machine.reset }

/-- Events that happen one after the other. -/
inductive Trace [Keypad κ] [Display δ] : Session κ δ → List Event → Session κ δ → Prop
  | nil {s : Session κ δ} : Trace s [] s
  | cons {s s₁ s₂ : Session κ δ} {e : Event} {log : List Event} (happens : s.Happens e s₁)
      (rest : Trace s₁ log s₂) : Trace s (e :: log) s₂

section

variable [Keypad κ] [Display δ] {s s₁ s₂ : Session κ δ} {log log' : List Event} {e : Event}

theorem Trace.single (h : s.Happens e s₁) : Trace s [e] s₁ := .cons h .nil

theorem Trace.append (h : Trace s log s₁) (h' : Trace s₁ log' s₂) : Trace s (log ++ log') s₂ := by
  induction h with
  | nil => exact h'
  | cons happens _ ih => exact .cons happens (ih h')

/-- What every event keeps, of a session and what happened before, a trace keeps. -/
theorem Trace.keeps {P : List Event → Session κ δ → Prop}
    (hkeep : ∀ {log e s s'}, P log s → s.Happens e s' → P (log ++ [e]) s') (log : List Event) (h : P log s)
    (trace : Trace s log' s₁) : P (log ++ log') s₁ := by
  induction trace generalizing log with
  | nil => rwa [List.append_nil]
  | cons happens rest ih =>
    rw [List.append_cons]
    exact ih (log ++ [_]) (hkeep h happens)

end

end Session

namespace Scheduler

open Session

/-! ## The parts of a frame, run -/

section

variable [Keypad κ] {m m' : Machine κ} {stop : Stop} {n : Nat}

theorem runBatch_succ (n : Nat) (m : Machine κ) :
    runBatch (n + 1) m = match Machine.step m with
      | .ok _ m' => runBatch n m'
      | .error stop m' => .error stop m' := by
  rw [runBatch, Machine.bind_run, Machine.discard_run]
  cases Machine.step m <;> rfl

theorem runBatch_one {i : Instruction} (h : Machine.step m = .ok i m') : runBatch 1 m = .ok () m' := by
  rw [runBatch_succ, h]
  rfl

variable [Display δ]

/-- A batch that completes has carried out as many instructions as it was asked for. -/
theorem trace_of_runBatch_ok (s : Session κ δ) (h : runBatch n s.machine = .ok () m') :
    ∃ is : List Instruction, is.length = n ∧ Trace s (is.map .executed) { s with machine := m' } := by
  induction n generalizing s with
  | zero =>
    obtain ⟨-, rfl⟩ := EStateM.Result.ok.inj h
    exact ⟨[], rfl, .nil⟩
  | succ n ih =>
    rw [runBatch_succ] at h
    cases hstep : Machine.step s.machine with
    | error stop m₁ =>
      rw [hstep] at h
      cases h
    | ok i m₁ =>
      rw [hstep] at h
      obtain ⟨is, hlen, htrace⟩ := ih { s with machine := m₁ } h
      exact ⟨i :: is, congrArg (· + 1) hlen, .cons (.executed hstep) htrace⟩

/-- A batch that stops has carried out fewer, and stops as the next step does. -/
theorem trace_of_runBatch_error (s : Session κ δ) (h : runBatch n s.machine = .error stop m') :
    ∃ (is : List Instruction) (m₁ : Machine κ), is.length < n ∧
      Trace s (is.map .executed) { s with machine := m₁ } ∧ Machine.step m₁ = .error stop m' := by
  induction n generalizing s with
  | zero => cases h
  | succ n ih =>
    rw [runBatch_succ] at h
    cases hstep : Machine.step s.machine with
    | error stop' m₁ =>
      rw [hstep] at h
      obtain ⟨rfl, rfl⟩ := EStateM.Result.error.inj h
      exact ⟨[], s.machine, Nat.succ_pos n, .nil, hstep⟩
    | ok i m₁ =>
      rw [hstep] at h
      obtain ⟨is, m₂, hlen, htrace, hstop⟩ := ih { s with machine := m₁ } h
      exact ⟨i :: is, m₂, Nat.succ_lt_succ hlen, .cons (.executed hstep) htrace, hstop⟩

end

section

variable [Display δ]

theorem takeRedraw_of_settled {m : Machine κ} (h : m.screen.dirty = false) : m.takeRedraw.2 = m := by
  obtain ⟨memory, registers, ⟨pixels, dirty⟩, random, dialect, keypad⟩ := m
  obtain rfl : dirty = false := h
  rfl

theorem redraw_run (s : Session κ δ) :
    redraw s =
      if s.machine.screen.dirty then
        match Display.draw s.machine.takeRedraw.2.screen s.display with
        | .ok () display => .ok () { machine := s.machine.takeRedraw.2, display }
        | .error cause display => .error (.error (.io cause)) { machine := s.machine.takeRedraw.2, display }
      else .ok () s := by
  have htake : onMachine (modifyGet Machine.takeRedraw) s =
      .ok s.machine.screen.dirty { s with machine := s.machine.takeRedraw.2 } := rfl
  rw [redraw, Machine.bind_run, htake]
  cases hdirty : s.machine.screen.dirty with
  | true =>
    simp only [if_true, Machine.bind_run, Machine.get_run, onDisplay]
    cases Display.draw s.machine.takeRedraw.2.screen s.display <;> rfl
  | false =>
    rw [takeRedraw_of_settled hdirty]
    rfl

/-- The end of a frame is a tick, and a drawing if one is asked for. -/
theorem endFrame_run (s : Session κ δ) :
    endFrame s = redraw { s with machine := s.machine.tickTimers } := rfl

theorem endFrame_drawn {s : Session κ δ} {display : δ} (asked : s.machine.tickTimers.screen.dirty = true)
    (done : Display.draw s.machine.tickTimers.takeRedraw.2.screen s.display = .ok () display) :
    endFrame s = .ok () { machine := s.machine.tickTimers.takeRedraw.2, display } := by
  rw [endFrame_run, redraw_run, if_pos asked, done]

end

/-! ## The whole of it -/

section

variable [Keypad κ] [Display δ] {pace : Scheduler} {s : Session κ δ}

/-- A frame whose instructions complete comes down to its end. -/
theorem runFrame_eq_endFrame {m m' : Machine κ} (refreshed : Machine.refreshInput s.machine = .ok () m)
    (batch : runBatch pace.instructionsPerTick m = .ok () m') :
    runFrame pace s = endFrame { s with machine := m' } := by
  rw [runFrame, Machine.bind_run, onMachine, refreshed]
  simp only [Machine.bind_run, onMachine, batch]

/-- The outcomes of a frame, with the events that completed in it. -/
inductive Frame (pace : Scheduler) (s : Session κ δ) :
    List Event → EStateM.Result Stop (Session κ δ) Unit → Prop
  /-- The keypad fails to take in what happened. -/
  | unrefreshed {stop : Stop} {machine : Machine κ}
      (failed : Machine.refreshInput s.machine = .error stop machine) :
      Frame pace s [] (.error stop { s with machine })
  /-- An instruction fails. -/
  | stopped {is : List Instruction} {m machine : Machine κ} {stop : Stop}
      (trace : Trace s (Event.batch is) { s with machine := m })
      (short : is.length < pace.instructionsPerTick) (failed : Machine.step m = .error stop machine) :
      Frame pace s (Event.batch is) (.error stop { s with machine })
  /-- The display fails to draw. -/
  | undrawn {is : List Instruction} {m : Machine κ} {cause : IoError} {display : δ}
      (trace : Trace s (Event.batch is ++ [.ticked]) { s with machine := m })
      (whole : is.length = pace.instructionsPerTick) (asked : m.screen.dirty = true)
      (failed : Display.draw m.takeRedraw.2.screen s.display = .error cause display) :
      Frame pace s (Event.batch is ++ [.ticked])
        (.error (.error (.io cause)) { machine := m.takeRedraw.2, display })
  /-- The frame completes, and nothing is to be drawn. -/
  | still {is : List Instruction} {m : Machine κ}
      (trace : Trace s (Event.batch is ++ [.ticked]) { s with machine := m })
      (whole : is.length = pace.instructionsPerTick) (settled : m.screen.dirty = false) :
      Frame pace s (Event.batch is ++ [.ticked]) (.ok () { s with machine := m })
  /-- The frame completes with a drawing. -/
  | drawn {is : List Instruction} {m : Machine κ} {display : δ}
      (trace : Trace s (Event.batch is ++ [.ticked]) { s with machine := m })
      (whole : is.length = pace.instructionsPerTick) (asked : m.screen.dirty = true)
      (done : Display.draw m.takeRedraw.2.screen s.display = .ok () display) :
      Frame pace s (Event.batch is ++ [.ticked] ++ [.drew m.screen.pixels])
        (.ok () { machine := m.takeRedraw.2, display })

/-- A frame that completes is the trace of its events. -/
theorem Frame.trace {log : List Event} {s' : Session κ δ} (h : pace.Frame s log (.ok () s')) :
    Trace s log s' := by
  cases h with
  | still trace whole settled => exact trace
  | drawn trace whole asked done => exact trace.append (.single (.drew asked done))

/-- The end of a frame, after all of its instructions. -/
theorem endFrame_frame {is : List Instruction} {m : Machine κ}
    (trace : Trace s (Event.batch is) { s with machine := m })
    (whole : is.length = pace.instructionsPerTick) :
    ∃ log, pace.Frame s log (endFrame { s with machine := m }) := by
  have hticked := trace.append (.single .ticked)
  rw [endFrame_run, redraw_run]
  cases hdirty : m.tickTimers.screen.dirty with
  | false => exact ⟨_, .still hticked whole hdirty⟩
  | true =>
    rw [if_pos rfl]
    cases hdraw : Display.draw m.tickTimers.takeRedraw.2.screen s.display with
    | error cause display => exact ⟨_, .undrawn hticked whole hdirty hdraw⟩
    | ok u display => exact ⟨_, .drawn hticked whole hdirty hdraw⟩

/-- **Every frame has one of these outcomes.** -/
theorem runFrame_frame (pace : Scheduler) (s : Session κ δ) : ∃ log, pace.Frame s log (runFrame pace s) := by
  rw [runFrame, Machine.bind_run, onMachine]
  cases hrefresh : Machine.refreshInput s.machine with
  | error stop m => exact ⟨_, .unrefreshed hrefresh⟩
  | ok u m =>
    simp only [Machine.bind_run, onMachine]
    cases hbatch : runBatch pace.instructionsPerTick m with
    | error stop m' =>
      obtain ⟨is, m₁, hlen, htrace, hstop⟩ := trace_of_runBatch_error { s with machine := m } hbatch
      exact ⟨_, .stopped (.cons (.refreshed hrefresh) htrace) hlen hstop⟩
    | ok u' m' =>
      obtain ⟨is, hlen, htrace⟩ := trace_of_runBatch_ok { s with machine := m } hbatch
      exact endFrame_frame (.cons (.refreshed hrefresh) htrace) hlen

theorem frame_of_run {r : EStateM.Result Stop (Session κ δ) Unit} (hrun : runFrame pace s = r) :
    ∃ log, pace.Frame s log r := hrun ▸ runFrame_frame pace s

end

end Scheduler

end Chip8
