import Chip8.Rounding
import Chip8.Screen

/-!
# Plane — the screen as points of a coordinate plane

To be drawn larger, every pixel is blown up to `scale` by `scale` points with whole coordinates. The
first coordinate grows to the right and the second upward, and the screen's top left corner is the
origin, so its points have second coordinates of zero and below. The lit and the dark pixels give two
lists of points that together cover the enlarged screen once.

Sizes are counted in 64 bits, and a product that needs more is a fault. The coordinates of points and their
bounds are numbers of double precision, so beyond 53 binary digits they are rounded, and points that lie close
together become one.

* `Resolution.xBounds`, `Resolution.yBounds` — the least and the greatest coordinate of a point, which
  exist only if there is a point at all;
* `pixelPoints` — the points of a pixel;
* `Screen.plane` — the points of all lit or all dark pixels.
-/

namespace Chip8

/-- A point of the enlarged screen. -/
structure Point where
  /-- The distance to the right of the left edge. -/
  x : Int
  /-- The height above the top edge, at most zero. -/
  y : Int
deriving DecidableEq, Repr

/-- The point as near as double precision comes to it. -/
def Point.rounded (q : Point) : Point := ⟨Rounding.signed q.x, Rounding.signed q.y⟩

/-- The numbers from `lo` to `hi`. -/
structure Bounds where
  /-- The least number. -/
  lo : Int
  /-- The greatest number. -/
  hi : Int
deriving DecidableEq, Repr

/-- The size of a screen and how much each pixel is enlarged. -/
structure Resolution where
  /-- The number of pixel columns. -/
  width : Nat
  /-- The number of pixel rows. -/
  height : Nat
  /-- The number of points for each pixel, in each direction. -/
  scale : Nat
deriving DecidableEq, Repr

namespace Resolution

/-- The number of points along a side of `pixels` pixels. -/
def scaled (r : Resolution) (pixels : Nat) : Except Fault Nat :=
  if pixels * r.scale < UInt64.size then .ok (pixels * r.scale) else .error .arithmetic

/-- The number of columns of points. -/
def scaledWidth (r : Resolution) : Except Fault Nat := r.scaled r.width

/-- The number of rows of points. -/
def scaledHeight (r : Resolution) : Except Fault Nat := r.scaled r.height

/-- The distance between the first and the last of some points in a line, one apart. -/
def extent (points : Nat) : Except Fault Nat :=
  if 0 < points then .ok (Rounding.whole (points - 1)) else .error .arithmetic

/-- The bounds of the first coordinate. -/
def xBounds (r : Resolution) : Except Fault Bounds := do
  let e ← extent (← r.scaledWidth)
  return ⟨0, e⟩

/-- The bounds of the second coordinate. -/
def yBounds (r : Resolution) : Except Fault Bounds := do
  let e ← extent (← r.scaledHeight)
  return ⟨-e, 0⟩

variable {r : Resolution}

theorem scaled_eq_ok {pixels : Nat} (h : pixels * r.scale < UInt64.size) :
    r.scaled pixels = .ok (pixels * r.scale) := if_pos h

end Resolution

/-- Whether the number of the points of a pixel at column `x` and row `y`, and all their columns and rows,
fit into 64 bits. -/
def PixelFits (scale x y : Nat) : Prop :=
  scale * scale < UInt64.size ∧ (x + 1) * scale ≤ UInt64.size ∧ (y + 1) * scale ≤ UInt64.size

instance (scale x y : Nat) : Decidable (PixelFits scale x y) :=
  inferInstanceAs (Decidable (_ ∧ _ ∧ _))

/-- The points of the pixel at column `x` and row `y`, row by row. Their columns and rows are found exactly, and
then rounded to coordinates. -/
def pixelPoints (scale x y : Nat) : Except Fault (List Point) :=
  if PixelFits scale x y then
    .ok ((List.range (scale * scale)).map fun (k : Nat) =>
      Point.rounded ⟨x * scale + k % scale, -(y * scale + k / scale)⟩)
  else .error .arithmetic

namespace Screen

variable {w h : Nat}

/-- The columns and rows of the pixels that are lit, or of those that are dark, in row-major order. -/
def places (s : Screen w h) (lit : Bool) : List (Nat × Nat) :=
  (s.pixels.toList.zipIdx.filter fun p => p.1 == lit).map fun p => (p.2 % w, p.2 / w)

/-- The points of the pixels that are lit, or of those that are dark, pixel by pixel. -/
def plane (s : Screen w h) (scale : Nat) (lit : Bool) : Except Fault (List Point) :=
  List.flatten <$> (s.places lit).mapM fun p => pixelPoints scale p.1 p.2

end Screen

end Chip8
