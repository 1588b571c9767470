import Chip8.Rounding

/-!
# Area — rectangles of terminal cells

An area is as many cells wide and high as it says, from the top left corner of a terminal on. The cells
of an area are numbered in sixteen bits, so there is room for `Area.maxCells` of them. An area that would
hold more is made smaller: it keeps the ratio of its sides, as nearly as double precision tells it, and
its sides are cut to whole cells.

* `Area.limited` — an area with no more cells than there is room for;
* `Area.common` — the cells that two areas share.
-/

namespace Chip8

/-- The size of a rectangle of cells. -/
structure Area where
  /-- The number of columns. -/
  width : Nat
  /-- The number of rows. -/
  height : Nat
deriving DecidableEq, Repr

namespace Area

open Rounding

/-- The greatest number of cells. -/
def maxCells : Nat := 65535

/-- The number of units in one, for numbers that are counted in units: a ratio of two sides of at most
sixteen bits, and what is computed from it, has no significant digit below one unit. -/
def one : Nat := 1 <<< 80

/-- The area itself, or the largest one of the same shape when its cells are too many. -/
def limited (a : Area) : Area :=
  if a.width * a.height ≤ maxCells then a
  else
    let ratio := quotient (a.width * one) a.height
    let height := root (quotient (maxCells * one * one) ratio * one)
    let width := quotient (height * ratio) one
    ⟨width / one, height / one⟩

/-- The cells that two areas share. -/
def common (a b : Area) : Area := ⟨min a.width b.width, min a.height b.height⟩

theorem limited_of_le {a : Area} (h : a.width * a.height ≤ maxCells) : a.limited = a := if_pos h

example : (⟨386, 194⟩ : Area).limited = ⟨361, 181⟩ := by decide +kernel

end Area

end Chip8
