import Chip8.Canvas
import Chip8.Display

/-!
# Canvas/Terminal — a display on a character terminal

A grid of cells is sent to a terminal as text with control sequences between: the cursor goes to the
top left corner, every cell names its two colours before its character, and the colours are given back
at the end.

* `Grid.text` — what is sent to show a grid of cells;
* `TerminalDisplay` — a display that keeps the picture until it is sent.
-/

namespace Chip8

/-- The number of a colour among the sequences that set the foreground; ten more sets the background. -/
def Color.code : Color → Nat
  | .default => 39
  | .black => 30
  | .white => 97

/-- The text that shows a cell. -/
def Cell.text (c : Cell) : String :=
  "\x1b[" ++ toString c.foreground.code ++ ";" ++ toString (10 + c.background.code) ++ "m"
    ++ c.symbol.toString

/-- The text that shows a grid of cells from the top left corner on. -/
def Grid.text {w h : Nat} (cells : Grid Cell w h) : String :=
  "\x1b[H" ++ "\r\n".intercalate (cells.rows.map fun row => String.join (row.map Cell.text)) ++ "\x1b[0m"

/-- A display on a terminal of a size asked for. -/
structure TerminalDisplay (terminal : Area) where
  /-- Terminal cells for each pixel, in each direction; none counts as one. -/
  scale : Nat
  /-- The picture drawn last, if it was not sent yet. There is none on a terminal without room for it. -/
  unsent : Option (Grid Cell terminal.limited.width terminal.limited.height) := none

instance {terminal : Area} : Display (TerminalDisplay terminal) where
  draw screen d := .ok () { d with unsent := (Canvas.draw screen (max 1 d.scale) terminal).toOption }

end Chip8
