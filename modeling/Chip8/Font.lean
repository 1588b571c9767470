import Chip8.Word

/-!
# Font — the glyphs of the sixteen hexadecimal digits

Each glyph is five rows of eight pixels, of which the left four are used. The glyphs lie one after the
other from address 0 on, so the glyph of digit `d` starts at `5 * d`.
-/

namespace Chip8.Font

/-- The number of rows of a glyph. -/
def glyphSize : Nat := 5

/-- The rows of all glyphs, digit 0 first. -/
def glyphs : List Byte :=
  [0xf0, 0x90, 0x90, 0x90, 0xf0,
   0x20, 0x60, 0x20, 0x20, 0x70,
   0xf0, 0x10, 0xf0, 0x80, 0xf0,
   0xf0, 0x10, 0xf0, 0x10, 0xf0,
   0x90, 0x90, 0xf0, 0x10, 0x10,
   0xf0, 0x80, 0xf0, 0x10, 0xf0,
   0xf0, 0x80, 0xf0, 0x90, 0xf0,
   0xf0, 0x10, 0x20, 0x40, 0x40,
   0xf0, 0x90, 0xf0, 0x90, 0xf0,
   0xf0, 0x90, 0xf0, 0x10, 0xf0,
   0xf0, 0x90, 0xf0, 0x90, 0x90,
   0xe0, 0x90, 0xe0, 0x90, 0xe0,
   0xf0, 0x80, 0x80, 0x80, 0xf0,
   0xe0, 0x90, 0x90, 0x90, 0xe0,
   0xf0, 0x80, 0xf0, 0x80, 0xf0,
   0xf0, 0x80, 0xf0, 0x80, 0x80]

/-- The address of the first glyph. -/
def base : Nat := 0

/-- The address of the glyph of a hexadecimal digit, the low four bits of the byte. -/
def glyphAddr (digit : Byte) : Nat := base + glyphSize * (digit.toNat % 16)

@[simp] theorem length_glyphs : glyphs.length = 80 := rfl

end Chip8.Font
