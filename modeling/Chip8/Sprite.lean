import Chip8.Screen
import Chip8.Word

/-!
# Sprite — drawing eight columns of pixels by exclusive or

A sprite is a list of rows of eight pixels, the leftmost in the highest bit. Drawing it at a place
flips every screen pixel under a set bit; rows and columns that leave the screen come back on the other
side. The drawing answers whether any lit pixel was turned off.
-/

namespace Chip8

/-- The rows of a sprite, top first. -/
abbrev Sprite := List Byte

/-- One pixel of a sprite: its place in the sprite, and whether its bit is set. -/
structure Sprite.Dot where
  /-- The column, 0 for the leftmost. -/
  column : Nat
  /-- The row, 0 for the topmost. -/
  row : Nat
  /-- Whether the bit is set. -/
  bit : Bool
deriving DecidableEq, Repr

/-- The pixels of a sprite, row by row and from left to right. -/
def Sprite.dots (sprite : Sprite) : List Sprite.Dot :=
  sprite.zipIdx.flatMap fun (bits, row) =>
    (List.range 8).map fun column => ⟨column, row, bits.getMsbD column⟩

namespace Screen

variable {w h : Nat}

/-- Flips the pixel at `(x, y)` if `bit` is set, and answers whether that turned off a lit pixel. -/
def flip (s : Screen w h) (x y : Nat) (bit : Bool) : Except Fault (Bool × Screen w h) := do
  let lit ← s.get x y
  let s ← s.set x y (lit ^^ bit)
  return (bit && lit, s)

/-- Flips the pixels under the dots, the sprite's corner at `(vx, vy)`, wrapping at the edges. Answers
whether any lit pixel was turned off, or one had been before. -/
def flipDots (vx vy : Nat) : List Sprite.Dot → Bool × Screen w h → Except Fault (Bool × Screen w h)
  | [], drawn => .ok drawn
  | dot :: dots, (collided, s) => do
    let (hit, s) ← s.flip (← wrap vx dot.column w) (← wrap vy dot.row h) dot.bit
    flipDots vx vy dots (collided || hit, s)

/-- Draws a sprite with its corner at `(vx, vy)` and asks for a redraw. Answers whether any lit pixel
was turned off. -/
def draw (s : Screen w h) (vx vy : Nat) (sprite : Sprite) : Except Fault (Bool × Screen w h) := do
  let (collided, s) ← flipDots vx vy sprite.dots (false, s)
  return (collided, s.markDirty)

end Screen

end Chip8
