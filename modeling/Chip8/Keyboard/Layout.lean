/-!
# Keyboard/Layout — the keyboard layouts that are known by name

A layout is named in any mixture of cases; only the letters a to z are folded.
-/

namespace Chip8.Keyboard

/-- A layout of the host's keyboard. -/
inductive Layout where
  /-- The top row of letters starts with q. -/
  | qwerty
  /-- The top row of letters starts with a. -/
  | azerty
deriving DecidableEq, Repr

/-- A name, in lower case, that belongs to no layout. -/
structure UnknownLayout where
  /-- The name after its letters were put into lower case. -/
  name : String
deriving DecidableEq, Repr

/-- The text reported for an unknown layout. -/
def UnknownLayout.message (e : UnknownLayout) : String :=
  "unknown keyboard layout '" ++ e.name ++ "'"

namespace Layout

/-- The name of a layout. -/
def name : Layout → String
  | qwerty => "qwerty"
  | azerty => "azerty"

/-- The layout of this name, in any mixture of cases. -/
def ofName (text : String) : Except UnknownLayout Layout :=
  let folded := text.map Char.toLower
  if folded = qwerty.name then .ok qwerty
  else if folded = azerty.name then .ok azerty
  else .error ⟨folded⟩

end Layout

end Chip8.Keyboard
