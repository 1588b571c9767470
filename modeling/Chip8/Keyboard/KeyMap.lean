import Chip8.Keyboard.Layout
import Chip8.Word

/-!
# Keyboard/KeyMap — host keys and keypad codes, both ways

A key map pairs host characters with keypad codes so that no character and no code occurs twice: a new
pair replaces every old one that it shares a member with. Looking up a character folds the letters A to
Z to lower case, looking up a code gives the character as it was entered.

The keypad is the block of four by four keys at the left of the keyboard; the two layouts differ where
letters trade places.
-/

namespace Chip8.Keyboard

/-- Pairs of a host character and a keypad code, no member of which occurs twice. -/
structure KeyMap where
  /-- The pairs, the newest first. -/
  pairs : List (Char × Byte)
deriving DecidableEq, Repr

namespace KeyMap

/-- The map without pairs. -/
def empty : KeyMap := ⟨[]⟩

/-- Adds a pair and removes the pairs that share its character or its code. -/
def insert (m : KeyMap) (key : Char) (code : Byte) : KeyMap :=
  ⟨(key, code) :: m.pairs.filter fun p => p.1 ≠ key && p.2 ≠ code⟩

/-- The map with these pairs, inserted from the first to the last. -/
def ofList (l : List (Char × Byte)) : KeyMap := l.foldl (fun m p => m.insert p.1 p.2) empty

/-- The code of a character, letters A to Z counting as lower case. -/
def codeFor (m : KeyMap) (key : Char) : Option Byte := m.pairs.lookup key.toLower

/-- The character of a code. -/
def keyFor (m : KeyMap) (code : Byte) : Option Char :=
  (m.pairs.find? fun p => p.2 = code).map (·.1)

/-- The number of pairs. -/
def size (m : KeyMap) : Nat := m.pairs.length

/-- Whether there is no pair. -/
def isEmpty (m : KeyMap) : Bool := m.pairs.isEmpty

/-- The keys of a layout: for each code from 0 on, the character at its place. -/
def keys : Layout → List Char
  | .qwerty => ['x', '1', '2', '3', 'q', 'w', 'e', 'a', 's', 'd', 'z', 'c', '4', 'r', 'f', 'v']
  | .azerty => ['x', '1', '2', '3', 'a', 'z', 'e', 'q', 's', 'd', 'w', 'c', '4', 'r', 'f', 'v']

/-- The key map of a layout. -/
def ofLayout (layout : Layout) : KeyMap :=
  ofList ((keys layout).zipIdx.map fun (key, code) => (key, BitVec.ofNat 8 code))

example : (ofLayout .azerty).codeFor 'A' = some 4 := by decide

end KeyMap

end Chip8.Keyboard
