import Chip8.Keyboard.Layout

/-!
# Config — what a run can be set up with

The points on which programs expect different machines are gathered in a `Dialect`. A `Config` adds the
keyboard layout, the pace of the two clocks, the size of the picture and the seed of the random bytes.
The pace is given as instructions and timer ticks per second; `Config.instructionsPerTick` is what runs
between two ticks, at least one, and a frequency of zero counts as one.
-/

namespace Chip8

/-- The register that the shift instructions read. -/
inductive ShiftSource where
  /-- The register they write. -/
  | vx
  /-- Their second operand. -/
  | vy
deriving DecidableEq, Repr

/-- The points on which programs expect different machines. -/
structure Dialect where
  /-- The register that the shift instructions read. -/
  shiftSource : ShiftSource := .vx
  /-- Whether storing or loading registers leaves the index past the last byte transferred. -/
  advancesIndex : Bool := false
deriving DecidableEq, Repr

/-- Everything a run can be set up with. -/
structure Config where
  /-- The dialect of the program. -/
  dialect : Dialect := {}
  /-- The layout of the host's keyboard. -/
  layout : Keyboard.Layout := .qwerty
  /-- Instructions per second. -/
  instructionsPerSecond : UInt32 := 700
  /-- Timer ticks per second. -/
  timerHz : UInt32 := 60
  /-- Terminal cells for each pixel, in each direction. -/
  scale : UInt64 := 1
  /-- The seed of the random bytes; without one they differ from run to run. -/
  seed : Option UInt64 := none
deriving DecidableEq, Repr

namespace Config

/-- Timer ticks per second, where a frequency of zero counts as one. -/
def ticksPerSecond (c : Config) : Nat := max 1 c.timerHz.toNat

/-- The number of instructions between two ticks, at least one. -/
def instructionsPerTick (c : Config) : Nat := max 1 (c.instructionsPerSecond.toNat / c.ticksPerSecond)

/-- The length of a tick in nanoseconds. -/
def tickNanos (c : Config) : Nat := 1000000000 / c.ticksPerSecond

theorem instructionsPerTick_pos (c : Config) : 0 < c.instructionsPerTick :=
  Nat.lt_of_lt_of_le (by decide) (Nat.le_max_left 1 _)

example : ({} : Config).instructionsPerTick = 11 := by decide

end Config

end Chip8
