import Chip8.Proofs.Frames
import Chip8.Proofs.Invariant
import Chip8.Proofs.Rows

/-!
# Proofs/Redraw — the display never misses a change of the picture

What has happened in a session decides whether a redraw is due: nothing was drawn yet, or the picture may
have changed since the last drawing (`RedrawDue`). The screen's request to redraw says the same, and while it
is settled the picture drawn last is the one on the screen (`Screen.Current`). Each event keeps this, whatever
happened before it, so it holds along every history from a new machine (`Session.History`), and the end of a
frame, which draws what is asked for, leaves the request settled.
-/

namespace Chip8

/-- Every drawing succeeds. -/
def Display.Succeeds (δ : Type) [Display δ] : Prop :=
  ∀ screen (d : δ), ∃ d', Display.draw screen d = .ok () d'

/-- A view of a display that tells what was drawn last: `look` of the picture. -/
def Display.Sees {α δ : Type} [Display δ] (view : δ → α) (look : Picture → α) : Prop :=
  ∀ screen d d', Display.draw screen d = .ok () d' → view d' = look screen.pixels

namespace CountingDisplay

theorem succeeds : Display.Succeeds CountingDisplay := fun _ _ => ⟨_, rfl⟩

theorem sees_lit : Display.Sees CountingDisplay.lastLit fun picture => picture.toList.count true := by
  intro screen d d' hdraw
  obtain ⟨-, rfl⟩ := EStateM.Result.ok.inj hdraw
  rfl

end CountingDisplay

namespace Event

/-- Whether the picture may be another one afterwards. -/
def paints : Event → Bool
  | executed .clearScreen | executed (.draw _ _ _) | reset => true
  | _ => false

/-- The picture that was drawn. -/
def drawn? : Event → Option Picture
  | drew picture => some picture
  | _ => none

end Event

/-- The picture drawn last. -/
def lastPicture (log : List Event) : Option Picture := log.reverse.findSome? Event.drawn?

/-- What happened since the last drawing, the newest first. -/
def sinceDrawing (log : List Event) : List Event := log.reverse.takeWhile (·.drawn?.isNone)

/-- Nothing was drawn yet, or the picture may have changed since. -/
def RedrawDue (log : List Event) : Prop := lastPicture log = none ∨ ∃ e ∈ sinceDrawing log, e.paints = true

/-! ## One event more -/

section

variable {log events : List Event} {e : Event}

theorem lastPicture_concat (log : List Event) (e : Event) :
    lastPicture (log ++ [e]) = e.drawn?.or (lastPicture log) := findSome?_reverse_concat _ log e

theorem sinceDrawing_concat (log : List Event) (e : Event) :
    sinceDrawing (log ++ [e]) = if e.drawn?.isNone then e :: sinceDrawing log else [] :=
  takeWhile_reverse_concat _ log e

/-- A drawing settles what is due, and nothing else does. -/
theorem redrawDue_concat : RedrawDue (log ++ [e]) ↔ e.drawn? = none ∧ (e.paints = true ∨ RedrawDue log) := by
  rw [RedrawDue, lastPicture_concat, sinceDrawing_concat]
  cases hdrawn : e.drawn? with
  | some picture => simp
  | none =>
    simp only [Option.none_or, Option.isNone_none, if_true, List.mem_cons, exists_eq_or_imp, true_and,
      RedrawDue]
    exact or_left_comm

theorem RedrawDue.append (h : RedrawDue log) (hnone : ∀ picture, .drew picture ∉ events) :
    RedrawDue (log ++ events) := by
  induction events generalizing log with
  | nil => rwa [List.append_nil]
  | cons e events ih =>
    have hdrawn : e.drawn? = none := by
      cases e with
      | drew picture => exact absurd List.mem_cons_self (hnone picture)
      | _ => rfl
    rw [List.append_cons]
    exact ih (redrawDue_concat.2 ⟨hdrawn, .inr h⟩) fun picture hmem =>
      hnone picture (List.mem_cons_of_mem _ hmem)

end

/-! ## The screen and what has happened -/

namespace Screen

/-- The request to redraw is what is due, and while it is settled the last picture drawn is the screen's. -/
structure Current (log : List Event) (s : Screen screenWidth screenHeight) : Prop where
  due : s.dirty = true ↔ RedrawDue log
  shown (settled : s.dirty = false) : lastPicture log = some s.pixels

namespace Current

variable {log : List Event} {s : Screen screenWidth screenHeight} {e : Event}

theorem new : Current [] .new := ⟨⟨fun _ => .inl rfl, fun _ => rfl⟩, nofun⟩

/-- The screen stays as it was. -/
theorem kept (h : s.Current log) (hpaints : e.paints = false) (hdrawn : e.drawn? = none) :
    s.Current (log ++ [e]) where
  due := by
    rw [redrawDue_concat, h.due, hpaints, hdrawn]
    simp only [Bool.false_eq_true, false_or, true_and]
  shown settled := by
    rw [lastPicture_concat, hdrawn, Option.none_or, h.shown settled]

/-- The picture may be another one. -/
theorem painted (hdirty : s.dirty = true) (hpaints : e.paints = true) : s.Current (log ++ [e]) where
  due := by
    have hdrawn : e.drawn? = none := by
      cases e with
      | drew picture => cases hpaints
      | _ => rfl
    exact ⟨fun _ => redrawDue_concat.2 ⟨hdrawn, .inl hpaints⟩, fun _ => hdirty⟩
  shown settled := absurd (settled.symm.trans hdirty) Bool.false_ne_true

/-- The picture is drawn. -/
theorem drawn (hsettled : s.dirty = false) : s.Current (log ++ [.drew s.pixels]) where
  due := by
    rw [hsettled, redrawDue_concat]
    exact ⟨nofun, fun h => nomatch h.1⟩
  shown _ := by
    rw [lastPicture_concat]
    rfl

end Current

end Screen

namespace Machine

variable {κ : Type} {m m' : Machine κ} {i : Instruction} {log : List Event}

theorem screen_load {program : List Byte} (h : m.load program = .ok m') : m'.screen = m.screen := by
  rw [load_inv h]

/-- An instruction that may change the picture asks for a redraw, and any other leaves the screen alone. -/
theorem current_screenAfter (h : m.screen.Current log) (i : Instruction) :
    (m.screenAfter i).Current (log ++ [.executed i]) := by
  cases i with
  | clearScreen => exact .painted rfl rfl
  | draw x y n => exact .painted rfl rfl
  | _ => exact h.kept rfl rfl

variable [Keypad κ]

theorem screen_step (done : step m = .ok i m') : m'.screen = m.screenAfter i := by
  cases steps_of_run done with
  | done reach fetched fits accepted answered => rw [screen_proceed, after]

theorem screen_step_error {e : Error} (failed : step m = .error (.error e) m') : m'.screen = m.screen := by
  cases steps_of_run failed with
  | unknown reach fetched => rfl
  | refused reach fetched refused => exact screen_refused
  | unanswered reach fetched failed => rfl

theorem screen_refreshInput (h : left? (refreshInput m) = some m') : m'.screen = m.screen := by
  obtain ⟨keypad, rfl⟩ := refresh_inv h
  rfl

end Machine

namespace Session

variable {κ δ : Type} [Keypad κ] [Display δ] {s s' : Session κ δ} {log events : List Event} {e : Event}

/-- By cases on the event; only three kinds change the screen, and a drawing only its request. -/
theorem current_happens (h : s.machine.screen.Current log) (happens : s.Happens e s') :
    s'.machine.screen.Current (log ++ [e]) := by
  cases happens with
  | refreshed done =>
    rw [Machine.screen_refreshInput (congrArg Machine.left? done)]
    exact h.kept rfl rfl
  | executed done =>
    rw [Machine.screen_step done]
    exact Machine.current_screenAfter h _
  | ticked => exact h.kept rfl rfl
  | drew asked done => exact Screen.Current.drawn (s := s.machine.takeRedraw.2.screen) rfl
  | reset => exact .painted rfl rfl

theorem current_trace (h : s.machine.screen.Current log) (trace : Trace s events s') :
    s'.machine.screen.Current (log ++ events) :=
  trace.keeps (P := fun log s => s.machine.screen.Current log) current_happens log h

/-! ## What a display shows -/

/-- If anything was drawn, the display shows it, as far as a view of the display tells pictures apart. -/
def Shows {α : Type} (view : δ → α) (look : Picture → α) (log : List Event) (s : Session κ δ) : Prop :=
  ∀ picture, lastPicture log = some picture → view s.display = look picture

section

variable {α : Type} {view : δ → α} {look : Picture → α}

theorem shows_happens (hview : Display.Sees view look) (h : s.Shows view look log)
    (happens : s.Happens e s') : s'.Shows view look (log ++ [e]) := by
  intro picture hlast
  rw [lastPicture_concat] at hlast
  cases happens with
  | drew asked done =>
    obtain rfl := Option.some.inj hlast
    exact hview s.machine.takeRedraw.2.screen _ _ done
  | refreshed | executed | ticked | reset => exact h picture hlast

theorem shows_trace (hview : Display.Sees view look) (h : s.Shows view look log) (trace : Trace s events s') :
    s'.Shows view look (log ++ events) :=
  trace.keeps (P := fun log s => s.Shows view look log) (shows_happens hview) log h

end

/-! ## Histories -/

/-- What the host may do with a session, and the events that complete in it. -/
inductive Call (s : Session κ δ) : List Event → Session κ δ → Prop
  | frame {pace : Scheduler} {events : List Event} {s' : Session κ δ} (ran : pace.runFrame s = .ok () s')
      (frame : pace.Frame s events (.ok () s')) : Call s events s'
  | failedFrame {pace : Scheduler} {events : List Event} {s' : Session κ δ} {e : Error}
      (ran : pace.runFrame s = .error (.error e) s') (frame : pace.Frame s events (.error (.error e) s')) :
      Call s events s'
  | load {program : List Byte} {machine : Machine κ} (loaded : s.machine.load program = .ok machine) :
      Call s [] { s with machine }
  | step {i : Instruction} {machine : Machine κ} (done : Machine.step s.machine = .ok i machine) :
      Call s [.executed i] { s with machine }
  | failedStep {e : Error} {machine : Machine κ}
      (failed : Machine.step s.machine = .error (.error e) machine) : Call s [] { s with machine }
  | tickTimers : Call s [.ticked] { s with machine := s.machine.tickTimers }
  | reset : Call s [.reset] { s with machine := s.machine.reset }
  /-- The host's keypad changes by itself. -/
  | host (keypad : κ) : Call s [] { s with machine := { s.machine with keypad } }

/-- What has happened in a session since its machine was new. -/
inductive History : List Event → Session κ δ → Prop
  | new (keypad : κ) (dialect : Dialect) (random : RandomStream) (display : δ) :
      History [] ⟨.new keypad dialect random, display⟩
  | next {log events : List Event} {s s' : Session κ δ} (before : History log s) (call : s.Call events s') :
      History (log ++ events) s'

/-- A frame that fails draws nothing, and what fails in it changes neither screen nor display. -/
theorem frame_failed (hdraw : Display.Succeeds δ) {pace : Scheduler} {e : Error}
    (frame : pace.Frame s events (.error (.error e) s')) :
    ∃ m, Trace s events { s with machine := m } ∧ s'.machine.screen = m.screen ∧ s'.display = s.display ∧
      ∀ picture, .drew picture ∉ events := by
  cases frame with
  | unrefreshed failed =>
    exact ⟨s.machine, .nil, Machine.screen_refreshInput (congrArg Machine.left? failed), rfl,
      fun _ => List.not_mem_nil⟩
  | stopped trace short failed =>
    exact ⟨_, trace, Machine.screen_step_error failed, rfl, Event.drew_notMem_batch _⟩
  | @undrawn is m cause display trace whole asked failed =>
    obtain ⟨d, hd⟩ := hdraw m.takeRedraw.2.screen s.display
    rw [hd] at failed
    cases failed

/-- A call is its events, and what fails after them changes neither screen nor display. -/
theorem Call.trace (hdraw : Display.Succeeds δ) (h : s.Call events s') :
    ∃ s₁, Trace s events s₁ ∧ s'.machine.screen = s₁.machine.screen ∧ s'.display = s₁.display := by
  cases h with
  | frame ran frame => exact ⟨s', frame.trace, rfl, rfl⟩
  | failedFrame ran frame =>
    obtain ⟨m, htrace, hscreen, hdisplay, -⟩ := frame_failed hdraw frame
    exact ⟨_, htrace, hscreen, hdisplay⟩
  | load loaded => exact ⟨s, .nil, Machine.screen_load loaded, rfl⟩
  | step done => exact ⟨_, .single (.executed done), rfl, rfl⟩
  | failedStep failed => exact ⟨s, .nil, Machine.screen_step_error failed, rfl⟩
  | tickTimers => exact ⟨_, .single .ticked, rfl, rfl⟩
  | reset => exact ⟨_, .single .reset, rfl, rfl⟩
  | host keypad => exact ⟨s, .nil, rfl, rfl⟩

section

variable (hdraw : Display.Succeeds δ)

include hdraw

theorem History.current (h : History log s) : s.machine.screen.Current log := by
  induction h with
  | new keypad dialect random display => exact .new
  | next before call ih =>
    obtain ⟨s₁, htrace, hscreen, -⟩ := call.trace hdraw
    rw [hscreen]
    exact current_trace ih htrace

theorem History.shows {α : Type} {view : δ → α} {look : Picture → α} (hview : Display.Sees view look)
    (h : History log s) : s.Shows view look log := by
  induction h with
  | new keypad dialect random display => exact nofun
  | next before call ih =>
    obtain ⟨s₁, htrace, -, hdisplay⟩ := call.trace hdraw
    intro picture hlast
    rw [hdisplay]
    exact shows_trace hview ih htrace picture hlast

end

/-! ## Frames -/

section

variable {pace : Scheduler}

/-- After the tick of a frame, a redraw is asked for if it was due before. -/
theorem dirty_ticked (h : s.machine.screen.Current log) (trace : Trace s (events ++ [.ticked]) s') :
    s'.machine.screen.dirty = true ↔ RedrawDue (log ++ events) := by
  rw [(current_trace h trace).due, ← List.append_assoc, redrawDue_concat]
  simp only [Event.drawn?, Event.paints, Bool.false_eq_true, false_or, true_and]

/-- A frame that completes draws what is due then, once. -/
theorem frame_drawn (h : s.machine.screen.Current log) (frame : pace.Frame s events (.ok () s')) :
    ∃ is drawn, is.length = pace.instructionsPerTick ∧ events = Event.batch is ++ [.ticked] ++ drawn ∧
      (RedrawDue (log ++ Event.batch is) ∧ drawn = [.drew s'.machine.screen.pixels] ∧
          Display.draw s'.machine.screen s.display = .ok () s'.display ∨
        ¬ RedrawDue (log ++ Event.batch is) ∧ drawn = [] ∧ s'.display = s.display) := by
  cases frame with
  | @still is m trace whole settled =>
    have hnot : ¬ RedrawDue (log ++ Event.batch is) := fun hdue =>
      Bool.false_ne_true (settled.symm.trans ((dirty_ticked h trace).2 hdue))
    exact ⟨is, [], whole, (List.append_nil _).symm, .inr ⟨hnot, rfl, rfl⟩⟩
  | @drawn is m display trace whole asked done =>
    exact ⟨is, [.drew m.screen.pixels], whole, rfl, .inl ⟨(dirty_ticked h trace).1 asked, rfl, done⟩⟩

theorem settled_of_frame (frame : pace.Frame s events (.ok () s')) : s'.machine.screen.dirty = false := by
  cases frame with
  | still trace whole settled => exact settled
  | drawn trace whole asked done => rfl

end

/-- **The display never misses a change of the picture.** While no redraw is asked for, the picture drawn last
is the one on the screen. A frame that completes leaves nothing to redraw, and draws once if the picture may
have changed since the last drawing and not at all otherwise. A frame that fails draws nothing, and what was
asked for is still asked for. -/
theorem History.redraws (hdraw : Display.Succeeds δ) (h : History log s) :
    (s.machine.screen.dirty = false → lastPicture log = some s.machine.screen.pixels) ∧
    (∀ (α : Type) (view : δ → α) (look : Picture → α), Display.Sees view look →
      s.machine.screen.dirty = false → view s.display = look s.machine.screen.pixels) ∧
    (∀ pace s', Scheduler.runFrame pace s = .ok () s' → s'.machine.screen.dirty = false ∧
      ∃ is drawn, is.length = pace.instructionsPerTick ∧
        pace.Frame s (Event.batch is ++ [.ticked] ++ drawn) (.ok () s') ∧
        lastPicture (log ++ (Event.batch is ++ [.ticked] ++ drawn)) = some s'.machine.screen.pixels ∧
        (RedrawDue (log ++ Event.batch is) ∧ drawn = [.drew s'.machine.screen.pixels] ∧
            Display.draw s'.machine.screen s.display = .ok () s'.display ∨
          ¬ RedrawDue (log ++ Event.batch is) ∧ drawn = [] ∧ s'.display = s.display)) ∧
    (∀ pace e s', Scheduler.runFrame pace s = .error (.error e) s' → s'.display = s.display ∧
      (s.machine.screen.dirty = true → s'.machine.screen.dirty = true) ∧
      ∃ events, pace.Frame s events (.error (.error e) s') ∧ ∀ picture, .drew picture ∉ events) ∧
    (∀ log' (t : Session κ CountingDisplay), History log' t →
      ∀ pace t', Scheduler.runFrame pace t = .ok () t' →
        t'.display.lastLit = t'.machine.screen.litCount) := by
  have hcurrent := h.current hdraw
  refine ⟨hcurrent.shown, ?_, ?_, ?_, ?_⟩
  · intro α view look hview hsettled
    exact h.shows hdraw hview _ (hcurrent.shown hsettled)
  · intro pace s' hrun
    obtain ⟨events, hframe⟩ := Scheduler.frame_of_run hrun
    have hsettled := settled_of_frame hframe
    have hshown := ((h.next (.frame hrun hframe)).current hdraw).shown hsettled
    obtain ⟨is, drawn, hlen, rfl, hdrawn⟩ := frame_drawn hcurrent hframe
    exact ⟨hsettled, is, drawn, hlen, hframe, hshown, hdrawn⟩
  · intro pace e s' hrun
    obtain ⟨events, hframe⟩ := Scheduler.frame_of_run hrun
    obtain ⟨m, -, -, hdisplay, hnone⟩ := frame_failed hdraw hframe
    have hnext := (h.next (.failedFrame hrun hframe)).current hdraw
    exact ⟨hdisplay, fun hdirty => hnext.due.2 ((hcurrent.due.1 hdirty).append hnone), events, hframe, hnone⟩
  · intro log' t ht pace t' hrun
    obtain ⟨events, hframe⟩ := Scheduler.frame_of_run hrun
    have hnext := ht.next (.frame hrun hframe)
    have hshown := (hnext.current CountingDisplay.succeeds).shown (settled_of_frame hframe)
    exact hnext.shows CountingDisplay.succeeds CountingDisplay.sees_lit _ hshown

/-- A loaded program that jumps on the spot: its first frame draws the dark screen. -/
theorem History.redraws_first :
    let s : Session ScriptedKeypad CountingDisplay := ⟨.withOpcode 0x1200 (.holding []), {}⟩
    ∃ s', Scheduler.runFrame ⟨1, 1⟩ s = .ok () s' ∧ s'.machine.screen.dirty = false ∧
      s'.display.lastLit = s'.machine.screen.litCount ∧ s'.display.framesDrawn = 1 := by
  intro s
  have hnew : History [] (⟨.new (.holding []) {} (.ofSeed 0), {}⟩ : Session ScriptedKeypad CountingDisplay) :=
    .new _ _ _ _
  have hloaded : History [] s := hnew.next (.load (Machine.load_withOpcode 0x1200 _))
  have hi : (Machine.withOpcode 0x1200 (ScriptedKeypad.holding [])).instruction? = some (.jump 0x200) :=
    Machine.instruction?_withOpcode _ _
  have hstep := Machine.step_done (a := .silence) (k := .holding []) (by decide) hi trivial rfl rfl
  have hframe : Scheduler.runFrame ⟨1, 1⟩ s = _ :=
    Scheduler.runFrame_eq_endFrame rfl (Scheduler.runBatch_one hstep)
  rw [Scheduler.endFrame_drawn rfl rfl] at hframe
  obtain ⟨-, -, hcompletes, -, hcounts⟩ := History.redraws CountingDisplay.succeeds hloaded
  exact ⟨_, hframe, (hcompletes _ _ hframe).1, hcounts _ s hloaded _ _ hframe, rfl⟩

end Session

end Chip8
