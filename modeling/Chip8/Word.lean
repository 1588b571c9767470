/-!
# Word — the two sizes of data

Memory is made of bytes; addresses, opcodes and stacked return addresses are words, stored with the
high byte first. `Word.high_append_low` is the round trip between a word and its two bytes.
-/

namespace Chip8

/-- Eight bits: a cell of memory, the value of a general register. -/
abbrev Byte := BitVec 8

/-- Sixteen bits: an address, an opcode, a stacked return address. -/
abbrev Word := BitVec 16

/-- The high byte of a word, which comes first in memory. -/
def Word.high (w : Word) : Byte := w.extractLsb' 8 8

/-- The low byte of a word. -/
def Word.low (w : Word) : Byte := w.extractLsb' 0 8

@[simp] theorem Word.high_append_low (w : Word) : w.high ++ w.low = w := by
  simp only [Word.high, Word.low]
  apply BitVec.eq_of_toNat_eq
  simp only [BitVec.toNat_append, BitVec.extractLsb'_toNat]
  rw [← Nat.shiftLeft_add_eq_or_of_lt (Nat.mod_lt _ (by decide)), Nat.shiftLeft_eq]
  simp only [Nat.shiftRight_eq_div_pow]
  have := w.isLt
  omega

end Chip8
