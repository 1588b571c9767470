import Chip8.Display
import Chip8.Machine.Step

/-!
# Scheduler — frames of instructions between timer ticks

A frame is one timer tick long: the keypad takes in events, a batch of instructions runs, the timers
tick once, and the screen is drawn if the picture changed. A run is frame after frame until quit is
raised. Quit can be raised from outside, by the keypad or by the display, so whether it is raised is
asked of all three: of the number of frames done and of the two host states.

* `Scheduler.runFrame` — one frame; it stops early when the host or the program fails;
* `Scheduler.run` — frames until quit is raised, or a frame ends because the user wants to stop, or a
  frame fails otherwise. A run need not end, so it is given the greatest number of frames to try.
-/

namespace Chip8

/-- A machine and the display it is shown on. -/
structure Session (κ δ : Type) where
  /-- The machine. -/
  machine : Machine κ
  /-- The display. -/
  display : δ

/-- The pace of a run. -/
structure Scheduler where
  /-- The number of instructions in a frame. -/
  instructionsPerTick : Nat
  /-- The length of a frame in nanoseconds. -/
  tickNanos : Nat
deriving DecidableEq, Repr

namespace Scheduler

variable {κ δ α : Type}

/-- The pace that a configuration asks for. -/
def ofConfig (c : Config) : Scheduler := ⟨c.instructionsPerTick, c.tickNanos⟩

/-- Operates on the machine of a session. -/
def onMachine (op : MachineM κ α) : EStateM Stop (Session κ δ) α := fun s =>
  match op s.machine with
  | .ok a machine => .ok a { s with machine }
  | .error e machine => .error e { s with machine }

/-- Operates on the display of a session; its failure stops the operation. -/
def onDisplay (op : EStateM IoError δ α) : EStateM Stop (Session κ δ) α := fun s =>
  match op s.display with
  | .ok a display => .ok a { s with display }
  | .error e display => .error (.error (.io e)) { s with display }

/-- Runs `n` instructions, or as many as complete. -/
def runBatch [Keypad κ] : Nat → MachineM κ Unit
  | 0 => pure ()
  | n + 1 => do
    discard Machine.step
    runBatch n

/-- Draws the screen if the machine asks for it. The request is settled before the drawing. -/
def redraw [Display δ] : EStateM Stop (Session κ δ) Unit := do
  if ← onMachine (modifyGet Machine.takeRedraw) then
    onDisplay (Display.draw (← get).machine.screen)

/-- The end of a frame, after its instructions: a tick of the timers, and the picture. -/
def endFrame [Display δ] : EStateM Stop (Session κ δ) Unit := do
  onMachine (modify Machine.tickTimers)
  redraw

/-- One frame. -/
def runFrame [Keypad κ] [Display δ] (pace : Scheduler) : EStateM Stop (Session κ δ) Unit := do
  onMachine Machine.refreshInput
  onMachine (runBatch pace.instructionsPerTick)
  endFrame

/-- Whether quit is raised, given the number of frames done, the keypad and the display. -/
abbrev QuitSignal (κ δ : Type) := Nat → κ → δ → Bool

/-- Runs frames until quit, at most `fuel` of them, after `frames` are done. Gives the number of frames
done in all, or nothing when the run had not ended. Frames are counted without bound; a counter of 64 bits
shows the same number for the first 18446744073709551615 frames. -/
def runFrom [Keypad κ] [Display δ] (pace : Scheduler) (quit : QuitSignal κ δ) (frames : Nat) :
    Nat → EStateM Stop (Session κ δ) (Option Nat)
  | 0 => pure none
  | fuel + 1 => fun s =>
    if quit frames s.machine.keypad s.display then .ok (some frames) s
    else
      match runFrame pace s with
      | .ok () s => runFrom pace quit (frames + 1) fuel s
      | .error stop s => if stop.isQuit then .ok (some frames) s else .error stop s

/-- Runs frames until quit, at most `fuel` of them. Gives the number of frames done, or nothing when
the run had not ended. -/
def run [Keypad κ] [Display δ] (pace : Scheduler) (quit : QuitSignal κ δ) (fuel : Nat) :
    EStateM Stop (Session κ δ) (Option Nat) := runFrom pace quit 0 fuel

end Scheduler

end Chip8
