import Chip8.Machine.Basic

/-!
# Display — where the picture goes

A type `δ` of host states is a `Display` when it can be asked to draw a whole screen, which may fail.
`CountingDisplay` draws nothing: it counts what it was asked to draw and remembers how many pixels were
lit.
-/

namespace Chip8

/-- Host states that can draw a machine's screen. -/
class Display (δ : Type) where
  /-- Draws the whole screen. -/
  draw (screen : Screen screenWidth screenHeight) : EStateM IoError δ Unit

/-- A display that only counts. -/
structure CountingDisplay where
  /-- The number of screens drawn. -/
  framesDrawn : Nat := 0
  /-- The number of lit pixels of the last screen drawn. -/
  lastLit : Nat := 0
deriving DecidableEq, Repr

instance : Display CountingDisplay where
  draw screen d := .ok () ⟨d.framesDrawn + 1, screen.litCount⟩

end Chip8
