import Chip8.Grid

/-!
# Screen — one-bit pixels and the request to redraw

A screen is a grid of pixels that are lit or dark, together with a flag that asks the host to redraw.
Reading or writing a pixel outside the screen is a fault; whoever computes coordinates brings them into
range first. Writing a pixel does not raise the flag, so that a picture made of many pixels asks for
one redraw: whoever changes the picture raises it at the end.
-/

namespace Chip8

/-- A monochrome screen of `w` columns and `h` rows. -/
structure Screen (w h : Nat) where
  /-- The pixels; a lit one is `true`. -/
  pixels : Grid Bool w h
  /-- Whether the host has yet to redraw. -/
  dirty : Bool
deriving DecidableEq, Repr

namespace Screen

variable {w h : Nat}

/-- A new screen is dark and has yet to be drawn. -/
def new : Screen w h := ⟨.fill false, true⟩

/-- A new screen of a size asked for, refused when no memory could hold a byte for each pixel. -/
def ofSize (w h : Nat) : Except Fault (Screen w h) :=
  if w * h < UInt64.size / 2 then .ok new else .error .arithmetic

/-- Whether the pixel at `(x, y)` is lit. -/
def get (s : Screen w h) (x y : Nat) : Except Fault Bool :=
  match s.pixels.get? x y with
  | some lit => .ok lit
  | none => .error (.pixelOutside x y w h)

/-- Lights or darkens the pixel at `(x, y)`. -/
def set (s : Screen w h) (x y : Nat) (lit : Bool) : Except Fault (Screen w h) :=
  if x < w ∧ y < h then .ok { s with pixels := s.pixels.put x y lit }
  else .error (.pixelOutside x y w h)

/-- The coordinate `d` steps on from `p` along a side of `size` pixels, where 0 follows the last one.
Steps are counted in 64 bits. -/
def wrap (p d size : Nat) : Except Fault Nat :=
  if p + d < UInt64.size then .ok ((p + d) % size) else .error .arithmetic

/-- Darkens every pixel and asks for a redraw. -/
def clear (_ : Screen w h) : Screen w h := ⟨.fill false, true⟩

/-- Asks for a redraw. -/
def markDirty (s : Screen w h) : Screen w h := { s with dirty := true }

/-- Whether a redraw was asked for since the last call; the request is then settled. -/
def takeDirty (s : Screen w h) : Bool × Screen w h := (s.dirty, { s with dirty := false })

/-- The number of lit pixels. -/
def litCount (s : Screen w h) : Nat := s.pixels.toList.count true

variable {s : Screen w h} {x y : Nat}

theorem wrap_eq_ok {p d size : Nat} (h : p + d < UInt64.size) : wrap p d size = .ok ((p + d) % size) :=
  if_pos h

@[simp] theorem get_eq_ok (hx : x < w) (hy : y < h) : s.get x y = .ok (s.pixels.get x y hx hy) := by
  rw [get, Grid.get?_eq_some hx hy]

@[simp] theorem set_eq_ok (hx : x < w) (hy : y < h) (lit : Bool) :
    s.set x y lit = .ok { s with pixels := s.pixels.set x y lit hx hy } := by
  rw [set, if_pos ⟨hx, hy⟩, Grid.put_eq_set hx hy]

end Screen

end Chip8
