import Chip8.Proofs.Footprint
import Chip8.Proofs.Redraw

/-!
# Proofs/LostRedraw — a drawing that fails settles the request

The end of a frame settles the request to redraw before it asks the display to draw. When the display then
fails (`Scheduler.FailsToDraw`), the picture is on no display and nothing asks for it any more. Only what paints
raises the request again: an event that does not paint keeps a settled screen as it is (`Session.screen_call`),
so along everything that may come later (`Session.Later`) the picture stays undrawn until something paints.
-/

namespace Chip8

variable {κ δ : Type}

theorem Event.executed_mem_batch {is : List Instruction} {i : Instruction} (hi : i ∈ is) :
    .executed i ∈ Event.batch is := List.mem_cons_of_mem _ (List.mem_map_of_mem hi)

theorem Event.paints_executed {i : Instruction} : (Event.executed i).paints = true ↔ i.Paints := by
  cases i with
  | clearScreen => exact iff_of_true rfl trivial
  | draw x y n => exact iff_of_true rfl trivial
  | _ => exact iff_of_false Bool.false_ne_true id

theorem Machine.dirty_screenAfter {m : Machine κ} {i : Instruction} (h : i.Paints) :
    (m.screenAfter i).dirty = true := by
  cases i with
  | clearScreen => rfl
  | draw x y n => rfl
  | _ => exact h.elim

namespace Session

variable [Keypad κ] [Display δ] {s s' t : Session κ δ} {events : List Event} {e : Event} {is : List Instruction}
  {pace : Scheduler}

/-! ## Events that do not paint -/

theorem screen_happens (hpaints : e.paints = false) (hdrawn : e.drawn? = none) (happens : s.Happens e s') :
    s'.machine.screen = s.machine.screen := by
  cases happens with
  | refreshed done => exact Machine.screen_refreshInput (congrArg Machine.left? done)
  | executed done =>
    have hnot := mt Event.paints_executed.2 (Bool.not_eq_true _ ▸ hpaints)
    rw [Machine.screen_step done, Machine.screenAfter_of_not_paints hnot]
  | ticked => rfl
  | drew asked done => cases hdrawn
  | reset => cases hpaints

theorem dirty_happens (hpaints : e.paints = true) (happens : s.Happens e s') :
    s'.machine.screen.dirty = true := by
  cases happens with
  | executed done => rw [Machine.screen_step done, Machine.dirty_screenAfter (Event.paints_executed.1 hpaints)]
  | reset => rfl
  | refreshed | ticked | drew => cases hpaints

theorem dirty_happens_of_dirty (hdirty : s.machine.screen.dirty = true) (hdrawn : e.drawn? = none)
    (happens : s.Happens e s') : s'.machine.screen.dirty = true := by
  cases hpaints : e.paints with
  | false => rw [screen_happens hpaints hdrawn happens, hdirty]
  | true => exact dirty_happens hpaints happens

/-- While nothing is drawn, a redraw is asked for if it was before or if something painted, and without
anything that paints the screen stays as it is. -/
theorem screen_trace (trace : Trace s events s') (hnone : ∀ e ∈ events, e.drawn? = none) :
    (s'.machine.screen.dirty = true ↔ s.machine.screen.dirty = true ∨ ∃ e ∈ events, e.paints = true) ∧
    ((∀ e ∈ events, e.paints = false) → s'.machine.screen = s.machine.screen) := by
  induction trace with
  | nil => exact ⟨by simp only [List.not_mem_nil, false_and, exists_false, or_false], fun _ => rfl⟩
  | @cons s s₁ s₂ e events happens rest ih =>
    obtain ⟨hdirty, hscreen⟩ := ih fun e he => hnone e (List.mem_cons_of_mem _ he)
    have hdrawn := hnone e List.mem_cons_self
    constructor
    · rw [hdirty]
      simp only [List.mem_cons, exists_eq_or_imp, ← or_assoc]
      refine or_congr ⟨fun h => ?_, ?_⟩ .rfl
      · cases hpaints : e.paints with
        | true => exact .inr rfl
        | false => exact .inl (screen_happens hpaints hdrawn happens ▸ h)
      · rintro (h | h)
        · exact dirty_happens_of_dirty h hdrawn happens
        · exact dirty_happens h happens
    · intro hpaints
      rw [hscreen fun e he => hpaints e (List.mem_cons_of_mem _ he),
        screen_happens (hpaints e List.mem_cons_self) hdrawn happens]

/-! ## Frames from a settled screen -/

theorem drawn?_batch_ticked : ∀ e ∈ Event.batch is ++ [.ticked], e.drawn? = none := by
  intro e he
  simp only [Event.batch, List.mem_append, List.mem_cons, List.mem_map, List.not_mem_nil, or_false] at he
  obtain (rfl | ⟨i, -, rfl⟩) | rfl := he <;> rfl

/-- The events of a frame before its drawing paint if one of its instructions does. -/
theorem exists_paints_batch_ticked :
    (∃ e ∈ Event.batch is ++ [.ticked], e.paints = true) ↔ ∃ i ∈ is, i.Paints := by
  simp only [Event.batch, List.mem_append, List.mem_cons, List.mem_map, List.not_mem_nil, or_false]
  constructor
  · rintro ⟨e, (rfl | ⟨i, hi, rfl⟩) | rfl, hpaints⟩
    · cases hpaints
    · exact ⟨i, hi, Event.paints_executed.1 hpaints⟩
    · cases hpaints
  · rintro ⟨i, hi, hpaints⟩
    exact ⟨_, .inl (.inr ⟨i, hi, rfl⟩), Event.paints_executed.2 hpaints⟩

/-- From a settled screen, a frame that completes draws if one of its instructions paints. If none does, it
leaves the screen as it is and the display alone. -/
theorem frame_of_settled (hsettled : s.machine.screen.dirty = false) (frame : pace.Frame s events (.ok () s')) :
    ∃ is, is.length = pace.instructionsPerTick ∧
      ((∃ i ∈ is, i.Paints) ∧ events = Event.batch is ++ [.ticked] ++ [.drew s'.machine.screen.pixels] ∧
          Display.draw s'.machine.screen s.display = .ok () s'.display ∨
        (∀ i ∈ is, ¬ i.Paints) ∧ events = Event.batch is ++ [.ticked] ∧
          s'.machine.screen = s.machine.screen ∧ s'.display = s.display) := by
  have hasked {is m} (trace : Trace s (Event.batch is ++ [.ticked]) { s with machine := m }) :
      m.screen.dirty = true ↔ ∃ i ∈ is, i.Paints := by
    rw [(screen_trace trace drawn?_batch_ticked).1, hsettled, exists_paints_batch_ticked]
    simp only [Bool.false_eq_true, false_or]
  cases frame with
  | @still is m trace whole settled =>
    have hnone : ¬ ∃ i ∈ is, i.Paints := fun hpaint =>
      absurd (settled.symm.trans ((hasked trace).2 hpaint)) Bool.false_ne_true
    have hscreen := (screen_trace trace drawn?_batch_ticked).2 fun e he =>
      Bool.eq_false_iff.2 fun hpaints => hnone (exists_paints_batch_ticked.1 ⟨e, he, hpaints⟩)
    exact ⟨is, whole, .inr ⟨fun i hi hpaints => hnone ⟨i, hi, hpaints⟩, rfl, hscreen, rfl⟩⟩
  | @drawn is m display trace whole asked done =>
    exact ⟨is, whole, .inl ⟨(hasked trace).1 asked, rfl, done⟩⟩

/-! ## What may come later -/

/-- A call that does not paint leaves a settled screen as it is. -/
theorem screen_call (hsettled : s.machine.screen.dirty = false) (call : s.Call events s')
    (hpaints : ∀ e ∈ events, e.paints = false) : s'.machine.screen = s.machine.screen := by
  cases call with
  | frame ran frame =>
    obtain ⟨is, -, ⟨⟨i, hi, hi'⟩, rfl, -⟩ | ⟨-, -, hscreen, -⟩⟩ := frame_of_settled hsettled frame
    · have hmem := List.mem_append_left [Event.drew s'.machine.screen.pixels]
        (List.mem_append_left [Event.ticked] (Event.executed_mem_batch hi))
      exact absurd ((hpaints _ hmem).symm.trans (Event.paints_executed.2 hi')) Bool.false_ne_true
    · exact hscreen
  | failedFrame ran frame =>
    cases frame with
    | unrefreshed failed => exact Machine.screen_refreshInput (congrArg Machine.left? failed)
    | stopped trace short failed =>
      have hscreen := (screen_trace trace fun e he => drawn?_batch_ticked e (List.mem_append_left _ he)).2 hpaints
      exact (Machine.screen_step_error failed).trans hscreen
    | undrawn trace whole asked failed =>
      have hscreen := (screen_trace trace drawn?_batch_ticked).2 hpaints
      rw [hscreen, hsettled] at asked
      cases asked
  | load loaded => exact Machine.screen_load loaded
  | step done => exact screen_happens (hpaints _ List.mem_cons_self) rfl (.executed done)
  | failedStep failed => exact Machine.screen_step_error failed
  | tickTimers => rfl
  | reset => exact absurd (hpaints _ List.mem_cons_self) (by decide)
  | host keypad => rfl

/-- What may come after a session: any calls, between which the display may change by itself, as when it is
repaired. -/
inductive Later (s : Session κ δ) : List Event → Session κ δ → Prop
  | now : Later s [] s
  | next {log events : List Event} {t t' : Session κ δ} (before : Later s log t) (call : t.Call events t') :
      Later s (log ++ events) t'
  | repaired {log : List Event} {t : Session κ δ} (before : Later s log t) (display : δ) :
      Later s log { t with display }

/-- By induction on what comes later: as long as nothing paints, a settled screen stays as it is. -/
theorem Later.screen (hsettled : s.machine.screen.dirty = false) (later : s.Later events t)
    (hpaints : ∀ e ∈ events, e.paints = false) : t.machine.screen = s.machine.screen := by
  induction later with
  | now => rfl
  | next before call ih =>
    have hscreen := ih fun e he => hpaints e (List.mem_append_left _ he)
    rw [screen_call (hscreen ▸ hsettled) call fun e he => hpaints e (List.mem_append_right _ he), hscreen]
  | repaired before display ih => exact ih hpaints

end Session

namespace Scheduler

variable [Keypad κ] [Display δ]

/-- The instructions of a frame complete and leave the machine `m`, a redraw is asked for, and the display
fails to draw: `d` is what it is left as. -/
structure FailsToDraw (pace : Scheduler) (s : Session κ δ) (m : Machine κ) (cause : IoError) (d : δ) : Prop where
  batch : ∃ m₀, Machine.refreshInput s.machine = .ok () m₀ ∧ runBatch pace.instructionsPerTick m₀ = .ok () m
  asked : m.screen.dirty = true
  failed : Display.draw m.tickTimers.takeRedraw.2.screen s.display = .error cause d

theorem FailsToDraw.run {pace : Scheduler} {s : Session κ δ} {m : Machine κ} {cause : IoError} {d : δ}
    (h : pace.FailsToDraw s m cause d) :
    runFrame pace s = .error (.error (.io cause)) { machine := m.tickTimers.takeRedraw.2, display := d } := by
  obtain ⟨m₀, refreshed, batch⟩ := h.batch
  rw [runFrame_eq_endFrame refreshed batch, endFrame_run, redraw_run]
  have hasked : m.tickTimers.screen.dirty = true := h.asked
  simp only [hasked, h.failed, if_true]

end Scheduler

namespace Session

variable [Keypad κ] [Display δ]

/-- **A drawing that fails loses the redraw.** The frame ends with the display's error, and the request to
redraw is settled though the display did not draw. Whatever comes later, as long as nothing paints the screen
stays so, and a frame that completes then draws only if one of its own instructions paints: otherwise the
display is left as it is, and the picture that could not be drawn is not drawn. -/
theorem failedDrawing_settles {pace : Scheduler} {s : Session κ δ} {m : Machine κ} {cause : IoError} {d : δ}
    (fails : pace.FailsToDraw s m cause d) :
    ∃ s' : Session κ δ, Scheduler.runFrame pace s = .error (.error (.io cause)) s' ∧
      s'.machine.screen = { m.screen with dirty := false } ∧ s'.display = d ∧
      ∀ events t, s'.Later events t → (∀ e ∈ events, e.paints = false) →
        t.machine.screen = s'.machine.screen ∧
        ∀ (pace' : Scheduler) t', Scheduler.runFrame pace' t = .ok () t' →
          ∃ is, is.length = pace'.instructionsPerTick ∧
            ((∃ i ∈ is, i.Paints) ∧
                pace'.Frame t (Event.batch is ++ [.ticked] ++ [.drew t'.machine.screen.pixels]) (.ok () t') ∧
                Display.draw t'.machine.screen t.display = .ok () t'.display ∨
              (∀ i ∈ is, ¬ i.Paints) ∧
                pace'.Frame t (Event.batch is ++ [.ticked]) (.ok () t') ∧
                t'.machine.screen = s'.machine.screen ∧ t'.display = t.display) := by
  refine ⟨_, fails.run, rfl, rfl, fun events t later hpaints => ?_⟩
  have hscreen := later.screen rfl hpaints
  have hsettled : t.machine.screen.dirty = false := hscreen ▸ rfl
  refine ⟨hscreen, fun pace' t' hrun => ?_⟩
  obtain ⟨log, hframe⟩ := Scheduler.frame_of_run hrun
  obtain ⟨is, hlen, ⟨hpaint, rfl, hdrawn⟩ | ⟨hquiet, rfl, hkept, hdisplay⟩⟩ := frame_of_settled hsettled hframe
  · exact ⟨is, hlen, .inl ⟨hpaint, hframe, hdrawn⟩⟩
  · exact ⟨is, hlen, .inr ⟨hquiet, hframe, hkept.trans hscreen, hdisplay⟩⟩

end Session

/-! ## A display that breaks down -/

/-- A display that fails to draw while it is broken, and counts what it draws while it is not. -/
structure BreakableDisplay where
  /-- What drawing fails with while the display is broken. -/
  failure : Option IoError := none
  /-- The number of screens drawn. -/
  framesDrawn : Nat := 0
deriving DecidableEq, Repr

instance : Display BreakableDisplay where
  draw _ d :=
    match d.failure with
    | some cause => .error cause d
    | none => .ok () { d with framesDrawn := d.framesDrawn + 1 }

/-- A program that jumps on the spot, just loaded, on a display. -/
def jumping (display : BreakableDisplay) : Session ScriptedKeypad BreakableDisplay :=
  ⟨.withOpcode 0x1200 (.holding []), display⟩

/-- The machine of such a session after a step. -/
def jumped : Machine ScriptedKeypad :=
  ((jumping {}).machine.after (.jump 0x200) .silence (.holding [])).proceed .jumped

theorem instruction?_jumping (display : BreakableDisplay) :
    (jumping display).machine.instruction? = some (.jump 0x200) := Machine.instruction?_withOpcode _ _

theorem failsToDraw_jumping (cause : IoError) :
    Scheduler.FailsToDraw ⟨1, 1⟩ (jumping { failure := cause }) jumped cause { failure := cause } := by
  have hreach : (jumping {}).machine.registers.pc.toNat ≤ 4094 := by decide
  have hi := instruction?_jumping { failure := cause }
  have hstep := Machine.step_done (a := .silence) (k := .holding []) hreach hi trivial rfl rfl
  exact ⟨⟨_, rfl, Scheduler.runBatch_one hstep⟩, rfl, rfl⟩

namespace Session

theorem failedDrawing_settles_jump :
    let torn : IoError := ⟨.other, "torn"⟩
    Scheduler.FailsToDraw ⟨1, 1⟩ (jumping { failure := torn }) jumped torn { failure := torn } ∧
    ∃ s', Scheduler.runFrame ⟨1, 1⟩ (jumping { failure := torn }) = .error (.error (.io torn)) s' ∧
      s'.machine.screen = { jumped.screen with dirty := false } := by
  intro torn
  have hfails := failsToDraw_jumping torn
  obtain ⟨s', hrun, hscreen, -⟩ := failedDrawing_settles hfails
  exact ⟨hfails, s', hrun, hscreen⟩

/-- The display is broken for one frame only, but the dark screen of the new machine, which was to be drawn in
that frame, is not drawn in the next one. -/
theorem redraw_lost :
    let torn : IoError := ⟨.other, "torn"⟩
    Scheduler.FailsToDraw ⟨1, 1⟩ (jumping { failure := torn }) jumped torn { failure := torn } ∧
    ∃ s', Scheduler.runFrame ⟨1, 1⟩ (jumping { failure := torn }) = .error (.error (.io torn)) s' ∧
      s'.machine.screen.dirty = false ∧
      ∃ s'' : Session ScriptedKeypad BreakableDisplay,
        Scheduler.runFrame ⟨1, 1⟩ { s' with display := {} } = .ok () s'' ∧
        s''.display.framesDrawn = 0 := by
  intro torn
  have hfails := failsToDraw_jumping torn
  let mended : Session ScriptedKeypad BreakableDisplay := ⟨jumped.tickTimers.takeRedraw.2, {}⟩
  have hpc : (jumping {}).machine.registers.pc.toNat = mended.machine.registers.pc.toNat := by decide
  have hi : mended.machine.instruction? = some (.jump 0x200) := by
    have hi := instruction?_jumping {}
    rw [Machine.instruction?, hpc] at hi
    exact hi
  have hstep := Machine.step_done (a := .silence) (k := .holding []) (by decide) hi trivial rfl rfl
  have hframe : Scheduler.runFrame ⟨1, 1⟩ mended = _ :=
    Scheduler.runFrame_eq_endFrame rfl (Scheduler.runBatch_one hstep)
  rw [Scheduler.endFrame_run, Scheduler.redraw_run] at hframe
  exact ⟨hfails, _, hfails.run, rfl, _, hframe, rfl⟩

end Session

end Chip8
