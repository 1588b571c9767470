import Chip8.Error

/-!
# Grid — a rectangle of cells, row by row

A grid of `width` columns and `height` rows keeps its cells in one vector, a row after the other, so
the cell at column `x` and row `y` has index `y * width + x`. Distinct coordinates inside the rectangle
have distinct indices (`Grid.index_inj`), which is why a write changes one cell and no other
(`Grid.get_set`).
-/

namespace Chip8

/-- A rectangle of cells in row-major order. -/
structure Grid (α : Type) (width height : Nat) where
  /-- The cells, a row after the other. -/
  cells : Vector α (width * height)
deriving DecidableEq, Repr

namespace Grid

variable {α : Type} {w h : Nat}

/-- The index of a cell inside the rectangle is an index of the vector. -/
theorem index_lt {x y : Nat} (hx : x < w) (hy : y < h) : y * w + x < w * h :=
  calc y * w + x < y * w + w := Nat.add_lt_add_left hx _
    _ = (y + 1) * w := (Nat.succ_mul y w).symm
    _ ≤ h * w := Nat.mul_le_mul_right w hy
    _ = w * h := Nat.mul_comm h w

/-- Distinct coordinates have distinct indices, as long as both columns exist. -/
theorem index_inj {x y x' y' : Nat} (hx : x < w) (hx' : x' < w) :
    y * w + x = y' * w + x' ↔ x = x' ∧ y = y' := by
  constructor
  · intro heq
    have hmod := congrArg (· % w) heq
    have hdiv := congrArg (· / w) heq
    have hw : 0 < w := Nat.lt_of_le_of_lt (Nat.zero_le x) hx
    simp only [Nat.mul_comm _ w, Nat.mul_add_mod, Nat.mod_eq_of_lt hx, Nat.mod_eq_of_lt hx'] at hmod
    simp only [Nat.mul_comm _ w, Nat.mul_add_div hw, Nat.div_eq_of_lt hx, Nat.div_eq_of_lt hx',
      Nat.add_zero] at hdiv
    exact ⟨hmod, hdiv⟩
  · rintro ⟨rfl, rfl⟩
    rfl

/-- The grid whose cells are all `a`. -/
def fill (a : α) : Grid α w h := ⟨.replicate _ a⟩

/-- The grid with the cell `f x y` at column `x` and row `y`. -/
def ofFn (f : Nat → Nat → α) : Grid α w h := ⟨.ofFn fun i => f (i % w) (i / w)⟩

/-- The cell at column `x` and row `y`. -/
def get (g : Grid α w h) (x y : Nat) (hx : x < w) (hy : y < h) : α :=
  have := index_lt hx hy
  g.cells[y * w + x]

/-- The grid with `a` at column `x` and row `y`. -/
def set (g : Grid α w h) (x y : Nat) (a : α) (hx : x < w) (hy : y < h) : Grid α w h :=
  ⟨g.cells.set (y * w + x) a (index_lt hx hy)⟩

/-- The cell at column `x` and row `y`, if there is one. -/
def get? (g : Grid α w h) (x y : Nat) : Option α :=
  if hxy : x < w ∧ y < h then some (g.get x y hxy.1 hxy.2) else none

/-- The grid with `a` at column `x` and row `y`; a place outside the rectangle changes nothing. -/
def put (g : Grid α w h) (x y : Nat) (a : α) : Grid α w h :=
  if hxy : x < w ∧ y < h then g.set x y a hxy.1 hxy.2 else g

/-- All cells, a row after the other. -/
def toList (g : Grid α w h) : List α := g.cells.toList

/-- The cells of row `y` from left to right; a row outside the rectangle is empty. -/
def row (g : Grid α w h) (y : Nat) : List α := (List.range w).filterMap fun x => g.get? x y

/-- The rows from top to bottom. -/
def rows (g : Grid α w h) : List (List α) := (List.range h).map g.row

/-! ## What each operation does to the cells -/

@[simp] theorem get_fill {a : α} {x y : Nat} (hx : x < w) (hy : y < h) :
    (fill a : Grid α w h).get x y hx hy = a := by
  simp [fill, get]

@[simp] theorem get_ofFn {f : Nat → Nat → α} {x y : Nat} (hx : x < w) (hy : y < h) :
    (ofFn f : Grid α w h).get x y hx hy = f x y := by
  have hw : 0 < w := Nat.lt_of_le_of_lt (Nat.zero_le x) hx
  simp [ofFn, get, Nat.mul_comm y w, Nat.mul_add_div hw, Nat.mod_eq_of_lt hx,
    Nat.div_eq_of_lt hx]

/-- A write is read back at its own coordinates and nowhere else. -/
theorem get_set {g : Grid α w h} {a : α} {x y x' y' : Nat} (hx : x < w) (hy : y < h) (hx' : x' < w)
    (hy' : y' < h) :
    (g.set x y a hx hy).get x' y' hx' hy' = if x = x' ∧ y = y' then a else g.get x' y' hx' hy' := by
  simp only [set, get, Vector.getElem_set, index_inj hx hx']

@[simp] theorem get?_eq_some {g : Grid α w h} {x y : Nat} (hx : x < w) (hy : y < h) :
    g.get? x y = some (g.get x y hx hy) := dif_pos ⟨hx, hy⟩

@[simp] theorem put_eq_set {g : Grid α w h} {a : α} {x y : Nat} (hx : x < w) (hy : y < h) :
    g.put x y a = g.set x y a hx hy := dif_pos ⟨hx, hy⟩

end Grid

end Chip8
