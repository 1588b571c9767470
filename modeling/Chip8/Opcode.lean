import Chip8.Word

/-!
# Opcode — the fields of an instruction word

An opcode is a word of four hexadecimal digits `gxyn`. The first digit is the group; `x` and `y` name
registers; `n`, `nn` and `nnn` are the last one, two and three digits. Fields overlap, and which of them
carry meaning depends on the group.
-/

namespace Chip8

/-- An instruction word. -/
abbrev Opcode := Word

namespace Opcode

variable (op : Opcode)

/-- The first digit. -/
def group : Nat := (op.extractLsb' 12 4).toNat

/-- The second digit, a register number. -/
def x : Nat := (op.extractLsb' 8 4).toNat

/-- The third digit, a register number. -/
def y : Nat := (op.extractLsb' 4 4).toNat

/-- The last digit. -/
def n : Byte := (op.extractLsb' 0 4).setWidth 8

/-- The last two digits. -/
def nn : Byte := op.extractLsb' 0 8

/-- The last three digits, an address. -/
def nnn : Word := (op.extractLsb' 0 12).setWidth 16

theorem group_lt : op.group < 16 := (op.extractLsb' 12 4).isLt

theorem x_lt : op.x < 16 := (op.extractLsb' 8 4).isLt

theorem y_lt : op.y < 16 := (op.extractLsb' 4 4).isLt

theorem n_lt : op.n.toNat < 16 := by
  have := (op.extractLsb' 0 4).isLt
  rw [n, BitVec.toNat_setWidth]
  omega

theorem nnn_lt : op.nnn.toNat < 4096 := by
  have := (op.extractLsb' 0 12).isLt
  rw [nnn, BitVec.toNat_setWidth]
  omega

/-- The four digits make up the word. -/
theorem toNat_eq : op.toNat = op.group * 4096 + op.x * 256 + op.y * 16 + op.n.toNat := by
  have h := BitVec.isLt op
  simp only [group, x, y, n, BitVec.toNat_setWidth, BitVec.extractLsb'_toNat,
    Nat.shiftRight_eq_div_pow]
  omega

end Opcode

end Chip8
