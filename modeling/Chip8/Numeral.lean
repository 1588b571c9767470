/-!
# Numeral — unsigned numbers in decimal

An unsigned numeral is an optional plus sign and at least one of the digits 0 to 9, with nothing before,
between or after them. It may have any number of leading zeros; it is read only if its value stays below
a bound.
-/

namespace Chip8.Numeral

/-- The value of a character that is a decimal digit. -/
def digit? (c : Char) : Option Nat := if c.isDigit then some (c.toNat - '0'.toNat) else none

/-- The value of a list of decimal digits, if every character is one. -/
def digits? (cs : List Char) : Option (List Nat) := cs.mapM digit?

/-- The number written by a list of digits, the highest first. -/
def ofDigits (ds : List Nat) : Nat := ds.foldl (fun n d => 10 * n + d) 0

/-- The characters after an optional plus sign. -/
def dropPlus : List Char → List Char
  | '+' :: cs => cs
  | cs => cs

/-- The number that a text writes, if it is an unsigned numeral with a value below `bound`. -/
def read? (bound : Nat) (text : String) : Option Nat :=
  match digits? (dropPlus text.toList) with
  | some (d :: ds) =>
    let n := ofDigits (d :: ds)
    if n < bound then some n else none
  | _ => none

example : read? UInt32.size "+007" = some 7 := by cbv

end Chip8.Numeral
