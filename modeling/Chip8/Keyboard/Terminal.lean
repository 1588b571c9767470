import Chip8.Keyboard.KeyMap
import Chip8.Keypad

/-!
# Keyboard/Terminal — a keypad on a terminal's key events

A terminal reports that a key was pressed and repeats the report while it is held, but never reports its
release. So a key counts as down for a while after it was last reported, and the keypad remembers the
time of the last report for each code. Escape, and the letter c with control held, raise the quit flag,
which stays raised and ends every wait.

* `TerminalKeypad.handleKey` — what one key event does;
* `TerminalKeypad.drain` — all the events that have arrived, in their order;
* the `Keypad` instance — every question first takes in what has arrived.
-/

namespace Chip8.Keyboard

/-- A key of a terminal. -/
inductive Key where
  /-- A key that enters a character. -/
  | char (c : Char)
  /-- The escape key. -/
  | escape
  /-- Any other key: arrows, function keys, enter. -/
  | other
deriving DecidableEq, Repr

/-- A report that a key was pressed. -/
structure KeyEvent where
  /-- The key. -/
  key : Key
  /-- Whether control was held. -/
  ctrl : Bool := false
  /-- Whether shift was held. -/
  shift : Bool := false
  /-- Whether alt was held. -/
  alt : Bool := false
deriving DecidableEq, Repr

/-- A keypad on a terminal. Times are in milliseconds from any fixed moment. -/
structure TerminalKeypad where
  /-- The codes of the keys. -/
  keymap : KeyMap
  /-- The time at which each code was last reported. -/
  lastPressed : Vector (Option Nat) 16 := .replicate 16 none
  /-- Whether the user asked to stop. -/
  quit : Bool := false
  /-- Events that have arrived and not been taken in, the oldest first. -/
  inbox : List KeyEvent := []
  /-- The time now. -/
  now : Nat := 0

namespace TerminalKeypad

/-- How long a key counts as down after it was last reported. -/
def holdTime : Nat := 150

/-- Takes in one key event; gives the code it pressed, if any. -/
def handleKey (pad : TerminalKeypad) (event : KeyEvent) : Option Byte × TerminalKeypad :=
  match event.key with
  | .escape => (none, { pad with quit := true })
  | .char c =>
    if c = 'c' ∧ event.ctrl then (none, { pad with quit := true })
    else match pad.keymap.codeFor c with
      | some code =>
        (some code, { pad with lastPressed := pad.lastPressed.setIfInBounds code.toNat pad.now })
      | none => (none, pad)
  | .other => (none, pad)

/-- Takes in events in order; gives the first code that any of them pressed. -/
def handleKeys (pad : TerminalKeypad) : List KeyEvent → Option Byte × TerminalKeypad
  | [] => (none, pad)
  | event :: events =>
    let (code, pad) := pad.handleKey event
    let (later, pad) := pad.handleKeys events
    (code <|> later, pad)

/-- Takes in all events that have arrived; gives the first code that any of them pressed. -/
def drain (pad : TerminalKeypad) : Option Byte × TerminalKeypad :=
  { pad with inbox := [] }.handleKeys pad.inbox

/-- Whether a code was reported so lately that its key counts as down. -/
def isHeld (pad : TerminalKeypad) (code : Byte) : Bool :=
  match pad.lastPressed[code.toNat]? with
  | some (some time) => pad.now - time < holdTime
  | _ => false

/-- The codes reported so far, in ascending order. -/
def pressedCodes (pad : TerminalKeypad) : List Nat :=
  (List.range 16).filter fun code => (pad.lastPressed[code]?.getD none).isSome

/-- The failure of a wait after the user asked to stop. -/
def quitRequested : IoError := ⟨.interrupted, "quit requested"⟩

/-- The failure of a wait for which no key has arrived yet. -/
def noKeyYet : IoError := ⟨.other, "no key yet"⟩

instance : Keypad TerminalKeypad where
  isDown code pad :=
    let pad := pad.drain.2
    .ok (pad.isHeld code) pad
  awaitPress pad :=
    if pad.quit then .error quitRequested pad
    else match pad.drain with
      | (some code, pad) => .ok code pad
      | (none, pad) => .error (if pad.quit then quitRequested else noKeyYet) pad
  refresh pad := .ok () pad.drain.2

end TerminalKeypad

end Chip8.Keyboard
