import Chip8.Area
import Chip8.Plane

/-!
# Canvas — the screen drawn on a character terminal

A terminal is a grid of cells, each a character with a foreground and a background colour. The picture
of a screen is a box at the top left: a border with a title around an inner area, large enough for one
cell for each point of the enlarged screen if the terminal is, and cut to the terminal's size if not.
Both the terminal and the box hold no more cells than `Area.limited` leaves them. A box that is left
without an inner cell cannot be drawn.
The points are spread evenly over the inner area: the first and the last column of points fall on the
first and the last column of cells, and likewise for rows. Dark points are painted first and lit points
over them, so a cell that several points fall on is white as soon as one of them is lit.

* `Canvas.project` — the cell on which a coordinate falls;
* `Canvas.draw` — the whole terminal after drawing, whatever it showed before.
-/

namespace Chip8

/-- The colours in use. -/
inductive Color where
  /-- The terminal's own colour. -/
  | default
  /-- Black. -/
  | black
  /-- White. -/
  | white
deriving DecidableEq, Repr

/-- A cell of a terminal. -/
structure Cell where
  /-- The character shown. -/
  symbol : Char := ' '
  /-- The colour of the character. -/
  foreground : Color := .default
  /-- The colour behind it. -/
  background : Color := .default
deriving DecidableEq, Repr

namespace Canvas

/-- The title of the box. -/
def title : List Char := "CHIP-8".toList

/-- The cells that a side of the box asks for: one for each of its points and two for the border. The
side is counted in sixteen bits, and so are the points before, the higher bits being dropped. -/
def boxSide (points : Nat) : Except Fault Nat :=
  let side := 2 + points % UInt16.size
  if side < UInt16.size then .ok side else .error .arithmetic

/-- The cells that the box asks for. -/
def boxArea (r : Resolution) : Except Fault Area := do
  return ⟨← boxSide (← r.scaledWidth), ← boxSide (← r.scaledHeight)⟩

/-- The cell among `cells` on which a point falls that is `offset` away from the near end of the
bounds. The ends of the bounds fall on the first and the last cell. -/
def project (offset : Int) (bounds : Bounds) (cells : Nat) : Nat :=
  (offset * (cells - 1 : Nat) / (bounds.hi - bounds.lo)).toNat

/-- Paints points in one colour over an inner area. -/
def paint {w h : Nat} (xs ys : Bounds) (color : Color) (points : List Point)
    (area : Grid (Option Color) w h) : Grid (Option Color) w h :=
  points.foldl
    (fun area p => area.put (project (p.x - xs.lo) xs w) (project (ys.hi - p.y) ys h) (some color))
    area

/-- Paints the points of pixels, pixel by pixel. -/
def paintPixels {w h : Nat} (xs ys : Bounds) (color : Color) (scale : Nat) :
    List (Nat × Nat) → Grid (Option Color) w h → Except Fault (Grid (Option Color) w h)
  | [], area => .ok area
  | p :: places, area => do
    let points ← pixelPoints scale p.1 p.2
    paintPixels xs ys color scale places (paint xs ys color points area)

/-- Painting pixel by pixel paints all the points in their order. -/
theorem paintPixels_eq {w h : Nat} (xs ys : Bounds) (color : Color) (scale : Nat)
    (places : List (Nat × Nat)) (area : Grid (Option Color) w h) :
    paintPixels xs ys color scale places area =
      (fun points : List (List Point) => paint xs ys color points.flatten area) <$>
        places.mapM fun p : Nat × Nat => pixelPoints scale p.1 p.2 := by
  induction places generalizing area with
  | nil => rfl
  | cons p places ih =>
    rw [paintPixels, List.mapM_cons]
    cases pixelPoints scale p.1 p.2 with
    | error f => rfl
    | ok points =>
      refine (ih _).trans ?_
      cases places.mapM fun p : Nat × Nat => pixelPoints scale p.1 p.2 with
      | error f => simp [Functor.map, Except.map, bind, Except.bind]
      | ok rest => simp [paint, Functor.map, Except.map, bind, Except.bind, pure, Except.pure]

/-- A cell of the inner area, from the colour painted on it. -/
def innerCell : Option Color → Cell
  | some color => ⟨'▄', color, .default⟩
  | none => ⟨' ', .default, .black⟩

/-- The character of the border of a box of `w` by `h` cells, at a place on the border. -/
def borderSymbol (w h x y : Nat) : Char :=
  if y = 0 then
    if x = 0 then '┌'
    else if x = w - 1 then '┐'
    else title.getD (x - 1) '─'
  else if y = h - 1 then
    if x = 0 then '└' else if x = w - 1 then '┘' else '─'
  else '│'

/-- A cell of a terminal with a box around an inner area; beyond the box the terminal is blank. -/
def boxCell (box : Area) (inner : Grid (Option Color) (box.width - 2) (box.height - 2)) (x y : Nat) :
    Cell :=
  if x < box.width ∧ y < box.height then
    if x = 0 ∨ y = 0 ∨ x = box.width - 1 ∨ y = box.height - 1 then
      ⟨borderSymbol box.width box.height x y, .default, .black⟩
    else innerCell ((inner.get? (x - 1) (y - 1)).getD none)
  else {}

/-- The inner area of a box with a screen drawn on it: dark points, and lit points over them. -/
def innerArea {sw sh : Nat} (screen : Screen sw sh) (scale w h : Nat) :
    Except Fault (Grid (Option Color) w h) := do
  let resolution : Resolution := ⟨sw, sh, scale⟩
  let xs ← resolution.xBounds
  let ys ← resolution.yBounds
  let dark ← paintPixels xs ys .black scale (screen.places false) (.fill none)
  paintPixels xs ys .white scale (screen.places true) dark

/-- What a terminal of a size asked for shows of a screen, each pixel `scale` cells wide and high. A
position in the inner area is counted up to its last column and its last row, so there has to be one of
each. -/
def draw {sw sh : Nat} (screen : Screen sw sh) (scale : Nat) (terminal : Area) :
    Except Fault (Grid Cell terminal.limited.width terminal.limited.height) := do
  let wanted ← boxArea ⟨sw, sh, scale⟩
  let box := wanted.limited.common terminal.limited
  if box.width < 3 ∨ box.height < 3 then .error .arithmetic
  let inner ← innerArea screen scale (box.width - 2) (box.height - 2)
  return .ofFn (boxCell box inner)

end Canvas

end Chip8
