import Chip8.Error

/-!
# Keypad — the sixteen keys as a machine sees them

A machine does not keep the state of the keys: it asks the host. A type `κ` of host states is a
`Keypad` when it answers three questions, each of which may change the state and may fail: whether a
key is down, which key goes down next, and a chance to take in events between frames. A wait that ends
because the user wants to stop fails with the kind `IoKind.interrupted`.

`ScriptedKeypad` answers from a fixed set of held keys and a queue of presses.
-/

namespace Chip8

/-- Host states that answer a machine's questions about the keys. -/
class Keypad (κ : Type) where
  /-- Whether the key of this code is down now. -/
  isDown (code : Byte) : EStateM IoError κ Bool
  /-- Waits until a key goes down and gives its code. -/
  awaitPress : EStateM IoError κ Byte
  /-- Takes in what happened on the host since the last call. -/
  refresh : EStateM IoError κ Unit

/-- A keypad with some keys held throughout and presses queued for the waits. -/
structure ScriptedKeypad where
  /-- The codes of the held keys. -/
  held : List Byte
  /-- The codes of the presses to come, the next one first. -/
  presses : List Byte
deriving DecidableEq, Repr

namespace ScriptedKeypad

/-- A keypad with these keys held and no press queued. -/
def holding (codes : List Byte) : ScriptedKeypad := ⟨codes, []⟩

/-- Queues a press after all others. -/
def press (pad : ScriptedKeypad) (code : Byte) : ScriptedKeypad :=
  { pad with presses := pad.presses ++ [code] }

/-- The failure of a wait for which no press is queued: the user is taken to have left. -/
def noMorePresses : IoError := ⟨.interrupted, "no more key presses"⟩

instance : Keypad ScriptedKeypad where
  isDown code pad := .ok (decide (code ∈ pad.held)) pad
  awaitPress pad :=
    match pad.presses with
    | [] => .error noMorePresses pad
    | code :: rest => .ok code { pad with presses := rest }
  refresh pad := .ok () pad

end ScriptedKeypad

end Chip8
