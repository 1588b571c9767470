import Chip8.Memory
import Chip8.Hex

/-!
# Image — a program image on its way into memory

An image is a list of bytes that fits into the program area; it is read in full before anything runs,
so a bad path or an oversized file shows at once. `Image.dump` writes it in hexadecimal, one group for
each instruction word.
-/

namespace Chip8

/-- A program image. -/
structure Image where
  /-- The bytes, in the order in which they are loaded. -/
  bytes : List Byte
  /-- An image fits into the program area. -/
  length_le : bytes.length ≤ Memory.programCapacity
deriving DecidableEq

namespace Image

/-- The image with these bytes, refused when they do not fit. -/
def ofBytes (bytes : List Byte) : Except Error Image :=
  if h : bytes.length ≤ Memory.programCapacity then .ok ⟨bytes, h⟩
  else .error (.imageTooLarge bytes.length Memory.programCapacity)

/-- The image in the file at `path`, given what the file holds, or `none` where no regular file is. -/
def ofFile (path : String) (contents : Option (List Byte)) : Except Error Image :=
  match contents with
  | some bytes => ofBytes bytes
  | none => .error (.notAFile path)

/-- The number of bytes. -/
def size (image : Image) : Nat := image.bytes.length

/-- Whether the image has no byte. -/
def isEmpty (image : Image) : Bool := image.bytes.isEmpty

/-- The bytes in pairs, and a last one alone when their number is odd. -/
def groups : List Byte → List (List Byte)
  | [] => []
  | [b] => [[b]]
  | b :: c :: rest => [b, c] :: groups rest

/-- The image in hexadecimal: groups of two bytes with a space between them. -/
def dump (image : Image) : String := " ".intercalate ((groups image.bytes).map Hex.bytes)

@[simp] theorem flatten_groups (bytes : List Byte) : (groups bytes).flatten = bytes := by
  fun_induction groups bytes <;> simp_all

end Image

end Chip8
