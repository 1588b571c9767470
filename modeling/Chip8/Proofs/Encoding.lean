import Chip8.Instruction.Decode

/-!
# Proofs/Encoding — an instruction determines its opcode, up to the digit its group ignores

`Instruction.encode` writes an instruction as an opcode again. From what an opcode decodes to it gives the
opcode back, with the last digit set to zero in the two groups that pay no attention to it
(`encode_of_decode`). So two opcodes decode to the same instruction exactly if they differ in nothing but an
ignored digit (`decode_eq_decode_iff`).
-/

namespace Chip8

namespace Opcode

variable (op : Opcode)

/-! ## Opcodes put together from their fields -/

/-- The opcode of these four digits. -/
def ofDigits (group x y n : Nat) : Opcode := .ofNat 16 (group * 4096 + x * 256 + y * 16 + n)

/-- The opcode of a group, a register and a byte. -/
def ofByte (group x : Nat) (nn : Byte) : Opcode := .ofNat 16 (group * 4096 + x * 256 + nn.toNat)

/-- The opcode of a group and an address. -/
def ofAddress (group : Nat) (nnn : Word) : Opcode := .ofNat 16 (group * 4096 + nnn.toNat)

theorem toNat_nn : op.nn.toNat = op.y * 16 + op.n.toNat := by
  simp only [nn, y, n, BitVec.toNat_setWidth, BitVec.extractLsb'_toNat, Nat.shiftRight_eq_div_pow]
  omega

theorem toNat_nnn : op.nnn.toNat = op.x * 256 + op.y * 16 + op.n.toNat := by
  simp only [nnn, x, y, n, BitVec.toNat_setWidth, BitVec.extractLsb'_toNat, Nat.shiftRight_eq_div_pow]
  omega

theorem ofDigits_fields : ofDigits op.group op.x op.y op.n.toNat = op := by
  rw [ofDigits, ← toNat_eq, BitVec.ofNat_toNat, BitVec.setWidth_eq]

theorem ofByte_fields : ofByte op.group op.x op.nn = op := by
  rw [ofByte, toNat_nn, ← Nat.add_assoc]
  exact op.ofDigits_fields

theorem ofAddress_fields : ofAddress op.group op.nnn = op := by
  rw [ofAddress, toNat_nnn, ← Nat.add_assoc, ← Nat.add_assoc]
  exact op.ofDigits_fields

/-! ## The digit that is ignored -/

/-- The group pays no attention to the last digit. -/
def IgnoresLast : Prop := op.group = 5 ∨ op.group = 9

instance : Decidable op.IgnoresLast := inferInstanceAs (Decidable (_ ∨ _))

/-- The opcode, with the last digit set to zero where it is ignored. -/
def canonical : Opcode := if op.IgnoresLast then ofDigits op.group op.x op.y 0 else op

variable {op}

theorem canonical_of_ignoresLast (h : op.IgnoresLast) : op.canonical = ofDigits op.group op.x op.y 0 :=
  if_pos h

theorem canonical_of_not (h : ¬ op.IgnoresLast) : op.canonical = op := if_neg h

/-- The first three digits, as one number. -/
theorem toNat_front (op : Opcode) : (op.extractLsb' 4 12).toNat = op.group * 256 + op.x * 16 + op.y := by
  simp only [group, x, y, BitVec.extractLsb'_toNat, Nat.shiftRight_eq_div_pow]
  omega

theorem toNat_canonical (h : op.IgnoresLast) : op.canonical.toNat = (op.extractLsb' 4 12).toNat * 16 := by
  have hg := op.group_lt
  have hx := op.x_lt
  have hy := op.y_lt
  rw [canonical_of_ignoresLast h, ofDigits, BitVec.toNat_ofNat, toNat_front]
  omega

theorem group_canonical (op : Opcode) : op.canonical.group = op.group := by
  by_cases h : op.IgnoresLast
  · have hfront := op.canonical.toNat_eq
    have heq := toNat_canonical h
    have hbounds := And.intro op.canonical.x_lt (And.intro op.canonical.y_lt op.canonical.n_lt)
    have hbounds' := And.intro op.x_lt op.y_lt
    rw [toNat_front] at heq
    omega
  · rw [canonical_of_not h]

/-- Two opcodes differ in nothing but an ignored digit. -/
theorem canonical_eq_canonical_iff {a b : Opcode} :
    a.canonical = b.canonical ↔
      a = b ∨ (a.group = 5 ∧ b.group = 5 ∨ a.group = 9 ∧ b.group = 9) ∧
        a.extractLsb' 4 12 = b.extractLsb' 4 12 := by
  constructor
  · intro h
    have hgroup : a.group = b.group := by rw [← group_canonical a, h, group_canonical]
    by_cases ha : a.IgnoresLast
    · have hb : b.IgnoresLast := by rwa [IgnoresLast, hgroup] at ha
      refine .inr ⟨?_, ?_⟩
      · rw [← hgroup, and_self, and_self]
        exact ha
      · have htoNat := congrArg BitVec.toNat h
        rw [toNat_canonical ha, toNat_canonical hb] at htoNat
        exact BitVec.eq_of_toNat_eq (Nat.eq_of_mul_eq_mul_right (by decide) htoNat)
    · have hb : ¬ b.IgnoresLast := by rwa [IgnoresLast, hgroup] at ha
      rw [canonical_of_not ha, canonical_of_not hb] at h
      exact .inl h
  · rintro (rfl | ⟨hgroups, hfront⟩)
    · rfl
    · have ha : a.IgnoresLast := hgroups.imp And.left And.left
      have hb : b.IgnoresLast := hgroups.imp And.right And.right
      exact BitVec.eq_of_toNat_eq (by rw [toNat_canonical ha, toNat_canonical hb, hfront])

end Opcode

namespace Instruction

open Opcode

variable {op a b : Opcode} {i : Instruction}

/-! ## Instructions as opcodes -/

/-- The opcode of an instruction; an ignored digit is zero. -/
def encode : Instruction → Opcode
  | clearScreen => ofAddress 0x0 0x0e0
  | ret => ofAddress 0x0 0x0ee
  | jump nnn => ofAddress 0x1 nnn
  | call nnn => ofAddress 0x2 nnn
  | skipEqByte x nn => ofByte 0x3 x nn
  | skipNeByte x nn => ofByte 0x4 x nn
  | skipEq x y => ofDigits 0x5 x y 0x0
  | setByte x nn => ofByte 0x6 x nn
  | addByte x nn => ofByte 0x7 x nn
  | move x y => ofDigits 0x8 x y 0x0
  | or x y => ofDigits 0x8 x y 0x1
  | and x y => ofDigits 0x8 x y 0x2
  | xor x y => ofDigits 0x8 x y 0x3
  | add x y => ofDigits 0x8 x y 0x4
  | sub x y => ofDigits 0x8 x y 0x5
  | shiftRight x y => ofDigits 0x8 x y 0x6
  | subFrom x y => ofDigits 0x8 x y 0x7
  | shiftLeft x y => ofDigits 0x8 x y 0xe
  | skipNe x y => ofDigits 0x9 x y 0x0
  | setIndex nnn => ofAddress 0xa nnn
  | jumpOffset nnn => ofAddress 0xb nnn
  | random x nn => ofByte 0xc x nn
  | draw x y n => ofDigits 0xd x y n.toNat
  | skipKeyDown x => ofByte 0xe x 0x9e
  | skipKeyUp x => ofByte 0xe x 0xa1
  | getDelay x => ofByte 0xf x 0x07
  | awaitKey x => ofByte 0xf x 0x0a
  | setDelay x => ofByte 0xf x 0x15
  | setSound x => ofByte 0xf x 0x18
  | addIndex x => ofByte 0xf x 0x1e
  | setGlyph x => ofByte 0xf x 0x29
  | storeDecimal x => ofByte 0xf x 0x33
  | storeRegisters x => ofByte 0xf x 0x55
  | loadRegisters x => ofByte 0xf x 0x65

theorem encode_of_decodeSystem (hg : op.group = 0x0) (h : decodeSystem op = some i) : i.encode = op := by
  have hop := op.ofAddress_fields
  rw [hg, ofAddress] at hop
  unfold decodeSystem at h
  split at h
  case h_3 => contradiction
  all_goals
    obtain rfl := Option.some.inj h
    rw [‹op.nnn.toNat = _›] at hop
    exact hop

theorem encode_of_decodeArithmetic (hg : op.group = 0x8) (h : decodeArithmetic op = some i) :
    i.encode = op := by
  have hop := op.ofDigits_fields
  rw [hg] at hop
  unfold decodeArithmetic at h
  split at h
  case h_10 => contradiction
  all_goals
    obtain rfl := Option.some.inj h
    rw [‹op.n.toNat = _›] at hop
    exact hop

theorem encode_of_decodeKey (hg : op.group = 0xe) (h : decodeKey op = some i) : i.encode = op := by
  have hop := op.ofByte_fields
  rw [hg, ofByte] at hop
  unfold decodeKey at h
  split at h
  case h_3 => contradiction
  all_goals
    obtain rfl := Option.some.inj h
    rw [‹op.nn.toNat = _›] at hop
    exact hop

theorem encode_of_decodeTransfer (hg : op.group = 0xf) (h : decodeTransfer op = some i) : i.encode = op := by
  have hop := op.ofByte_fields
  rw [hg, ofByte] at hop
  unfold decodeTransfer at h
  split at h
  case h_10 => contradiction
  all_goals
    obtain rfl := Option.some.inj h
    rw [‹op.nn.toNat = _›] at hop
    exact hop

/-- **An instruction determines its opcode**, up to the digit that its group ignores. -/
theorem encode_of_decode (h : decode op = some i) : i.encode = op.canonical := by
  have hdigits := op.ofDigits_fields
  have hbyte := op.ofByte_fields
  have haddress := op.ofAddress_fields
  by_cases hlast : op.IgnoresLast
  · rw [canonical_of_ignoresLast hlast]
    obtain hg | hg := hlast <;>
    · simp only [decode, hg, Option.some.injEq] at h
      rw [← h, hg, encode]
  rw [canonical_of_not hlast]
  unfold decode at h
  split at h <;> rename_i hg
  case h_1 => exact encode_of_decodeSystem hg h
  case h_9 => exact encode_of_decodeArithmetic hg h
  case h_15 => exact encode_of_decodeKey hg h
  case h_16 => exact encode_of_decodeTransfer hg h
  case h_17 => contradiction
  case h_6 => exact absurd (.inl hg) hlast
  case h_10 => exact absurd (.inr hg) hlast
  all_goals
    obtain rfl := Option.some.inj h
    rw [hg] at hdigits hbyte haddress
    first | exact hdigits | exact hbyte | exact haddress

/-- The digit that is set to zero makes no difference. -/
theorem decode_canonical (op : Opcode) : decode op.canonical = decode op := by
  by_cases hlast : op.IgnoresLast
  · have hgroup := group_canonical op
    have hfront := toNat_canonical hlast
    have hfields := op.canonical.toNat_eq
    rw [toNat_front] at hfront
    have hcanonical := And.intro op.canonical.x_lt (And.intro op.canonical.y_lt op.canonical.n_lt)
    have hop := And.intro op.x_lt op.y_lt
    have hx : op.canonical.x = op.x := by omega
    have hy : op.canonical.y = op.y := by omega
    obtain hg | hg := hlast <;>
    · rw [hg] at hgroup
      simp only [decode, hg, hgroup, hx, hy]
  · rw [canonical_of_not hlast]

/-- **Two opcodes stand for the same instruction** exactly if they are equal, or lie in the same of the two
groups that ignore the last digit and have the same first three. -/
theorem decode_eq_decode_iff (h : decode a = some i) :
    decode a = decode b ↔
      a = b ∨ (a.group = 5 ∧ b.group = 5 ∨ a.group = 9 ∧ b.group = 9) ∧
        a.extractLsb' 4 12 = b.extractLsb' 4 12 := by
  rw [← canonical_eq_canonical_iff]
  constructor
  · intro hab
    rw [← encode_of_decode h, ← encode_of_decode (hab ▸ h)]
  · intro hab
    rw [← decode_canonical a, hab, decode_canonical]

end Instruction

end Chip8
