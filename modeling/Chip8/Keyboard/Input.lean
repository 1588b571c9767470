import Chip8.Keyboard.Terminal

/-!
# Keyboard/Input — key events from the bytes of a terminal

A terminal in raw mode sends the byte of a character for a key that enters one and, with control held,
the letter's place in the alphabet. Escape sends the escape byte alone. An arrow or a function key sends
a sequence: the escape byte, an opening bracket or a capital O, parameters, and one final byte.

* `KeyEvent.ofBytes` — the events of all bytes that have arrived.
-/

namespace Chip8.Keyboard

/-- The bytes after a sequence, given those after its opening: up to and with the first final byte. -/
def dropSequence : List Byte → List Byte
  | [] => []
  | b :: rest => if 0x40#8 ≤ b ∧ b ≤ 0x7e#8 then rest else dropSequence rest

theorem length_dropSequence_le (bytes : List Byte) : (dropSequence bytes).length ≤ bytes.length := by
  induction bytes with
  | nil => exact Nat.le_refl 0
  | cons b rest ih =>
    simp only [dropSequence, List.length_cons]
    split <;> omega

namespace KeyEvent

/-- The event of a byte that opens no sequence. Tab and enter arrive as the control bytes of i, j and m
and are no letters. -/
def ofByte (b : Byte) : KeyEvent :=
  if b = 0x1b#8 then { key := .escape }
  else if b = 0x09#8 ∨ b = 0x0a#8 ∨ b = 0x0d#8 then { key := .other }
  else if 0x01#8 ≤ b ∧ b ≤ 0x1a#8 then { key := .char (Char.ofNat (0x60 + b.toNat)), ctrl := true }
  else if 0x20#8 ≤ b ∧ b ≤ 0x7e#8 then { key := .char (Char.ofNat b.toNat) }
  else { key := .other }

/-- The events of bytes in the order in which they arrived. -/
def ofBytes : List Byte → List KeyEvent
  | [] => []
  | 0x1b#8 :: 0x5b#8 :: rest | 0x1b#8 :: 0x4f#8 :: rest =>
    { key := .other } :: ofBytes (dropSequence rest)
  | b :: rest => ofByte b :: ofBytes rest
termination_by bytes => bytes.length
decreasing_by
  all_goals
    have := length_dropSequence_le rest
    simp only [List.length_cons]
    omega

end KeyEvent

end Chip8.Keyboard
