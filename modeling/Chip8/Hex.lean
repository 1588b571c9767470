import Chip8.Word

/-!
# Hex — numbers and bytes in base sixteen

Addresses, opcodes and program images are written in hexadecimal: lower case, padded with zeros on
the left to a least width, and never cut when a number needs more digits than that. Register
numbers are written in upper case without padding.

* `Hex.lower` — lower case, at least `width` digits;
* `Hex.upper` — upper case, as many digits as the number needs;
* `Hex.bytes` — two digits for each byte.
-/

namespace Chip8

namespace Hex

/-- The digits of `n` in lower case, with zeros in front up to `width` digits. -/
def lowerDigits (width n : Nat) : List Char := (Nat.toDigits 16 n).leftpad width '0'

/-- The number `n` in lower case, with zeros in front up to `width` digits. -/
def lower (width n : Nat) : String := String.ofList (lowerDigits width n)

/-- The number `n` in upper case, without padding. -/
def upper (n : Nat) : String := String.ofList ((Nat.toDigits 16 n).map Char.toUpper)

/-- Two lower-case digits for each byte, nothing between them. -/
def bytes (l : List Byte) : String := String.ofList (l.flatMap fun b => lowerDigits 2 b.toNat)

end Hex

end Chip8
