import Chip8.Proofs.Invariant

/-!
# Proofs/Arithmetic — what groups 7 and 8 compute, on numbers

`Opcode.computation?` is the arithmetic of the two groups as a table: from the numbers in the operands, a
result and perhaps a flag, with no register in it. `Registers.Computed` says where the two end up when the
destination, the operands and the flag register are any of the sixteen, the same one included. Every
instruction of the table reads its operands, then writes the result and then the flag
(`execute_put_or_flag`), so it ends as the table says whichever of its registers coincide.
-/

namespace Chip8

/-- A result, and the flag that goes with it if there is one. -/
structure Computation where
  /-- The number for the destination. -/
  result : Int
  /-- What the flag register tells. -/
  flag : Option Bool := none
deriving DecidableEq, Repr

/-- What an opcode of group 7 or 8 computes when register `x` holds `a`, register `y` holds `b` and the
register that a shift reads holds `s`. -/
def Opcode.computation? (op : Opcode) (a b s : Nat) : Option Computation :=
  match op.group, op.n.toNat with
  | 0x7, _ => some { result := ((a : Int) + op.nn.toNat) % 256 }
  | 0x8, 0x0 => some { result := b }
  | 0x8, 0x1 => some { result := (a ||| b : Nat) }
  | 0x8, 0x2 => some { result := (a &&& b : Nat) }
  | 0x8, 0x3 => some { result := (a ^^^ b : Nat) }
  | 0x8, 0x4 => some { result := ((a : Int) + b) % 256, flag := some (256 ≤ a + b) }
  | 0x8, 0x5 => some { result := ((a : Int) - b) % 256, flag := some (b ≤ a) }
  | 0x8, 0x6 => some { result := (s / 2 : Nat), flag := some (s % 2 = 1) }
  | 0x8, 0x7 => some { result := ((b : Int) - a) % 256, flag := some (a ≤ b) }
  | 0x8, 0xe => some { result := (2 * s : Int) % 256, flag := some (128 ≤ s) }
  | _, _ => none

namespace Registers

variable {r : Registers} {x : Nat} {n : Int}

/-- The general registers of `r'` are those of `r` after a computation into register `x`: a flag goes to
register 15 and comes before the result, and no other register has changed. -/
def Computed (r r' : Registers) (x : Nat) (c : Computation) : Prop :=
  match c.flag with
  | some flag => (r'.byte 15).toNat = (if flag then 1 else 0) ∧
      (x ≠ 15 → (r'.byte x).toNat = c.result) ∧ ∀ i < 16, i ≠ 15 → i ≠ x → r'.byte i = r.byte i
  | none => (r'.byte x).toNat = c.result ∧ ∀ i < 16, i ≠ x → r'.byte i = r.byte i

theorem toNat_byte_put_self (hx : x < 16) : (((r.put x n).byte x).toNat : Int) = n % 256 := by
  rw [byte_put_self hx, BitVec.toNat_ofInt]
  exact Int.toNat_of_nonneg (Int.emod_nonneg n (by decide))

theorem byte_put_of_ne {i : Nat} (hi : i < 16) (h : i ≠ x) : (r.put x n).byte i = r.byte i := by
  rw [← byte_getElem hi, getElem_put_of_ne hi h, byte_getElem hi]

theorem computed_put (hx : x < 16) : r.Computed (r.put x n) x { result := n % 256 } :=
  ⟨toNat_byte_put_self hx, fun _ hi h => byte_put_of_ne hi h⟩

theorem computed_setFlag (hx : x < 16) (flag : Bool) :
    r.Computed ((r.put x n).setFlag flag) x { result := n % 256, flag := some flag } := by
  rw [setFlag_eq_put]
  refine ⟨?_, fun h => ?_, fun i hi h h' => ?_⟩
  · rw [byte_put_self (by decide)]
    cases flag <;> rfl
  · rw [byte_put_of_ne hx h, toNat_byte_put_self hx]
  · rw [byte_put_of_ne hi h, byte_put_of_ne hi h']

end Registers

namespace Machine

variable {κ : Type} {m : Machine κ} {op : Opcode} {c : Computation}

theorem toNat_emod (b : Byte) : (b.toNat : Int) % 256 = b.toNat :=
  Int.emod_eq_of_lt (Int.natCast_nonneg _) (by omega)

theorem toNat_shiftSource (x y : Nat) : (m.shiftSource x y).toNat =
    if m.dialect.shiftSource = .vx then (m.registers.byte x).toNat else (m.registers.byte y).toNat := by
  rw [shiftSource]
  cases m.dialect.shiftSource <;> rfl

variable [Keypad κ]

/-- **A computation is one write, or one write and then the flag.** By cases on the table: the instruction is
the one decoded from the same digits, and its effect on the registers is compared with the entry. -/
theorem execute_put_or_flag
    (hc : op.computation? (m.registers.byte op.x).toNat (m.registers.byte op.y).toNat
      (m.shiftSource op.x op.y).toNat = some c) :
    ∃ i n, Instruction.decode op = some i ∧
      ((execute i m = .ok .next { m with registers := m.registers.put op.x n } ∧
          c = { result := n % 256 }) ∨
        ∃ flag, execute i m = .ok .next { m with registers := (m.registers.put op.x n).setFlag flag } ∧
          c = { result := n % 256, flag := some flag }) := by
  have hx := op.x_lt
  have hxy := And.intro op.x_lt op.y_lt
  unfold Opcode.computation? at hc
  split at hc
  case h_1 hgroup =>
    have hi : Instruction.decode op = some (.addByte op.x op.nn) := by
      simp only [Instruction.decode, hgroup]
    obtain rfl := Option.some.inj hc
    exact ⟨_, _, hi, .inl ⟨execute_accepted (i := .addByte op.x op.nn) hx trivial rfl, rfl⟩⟩
  case h_2 hgroup hn =>
    have hi : Instruction.decode op = some (.move op.x op.y) := by
      simp only [Instruction.decode, Instruction.decodeArithmetic, hgroup, hn]
    obtain rfl := Option.some.inj hc
    refine ⟨_, _, hi, .inl ⟨execute_accepted (i := .move op.x op.y) hxy trivial rfl, ?_⟩⟩
    rw [toNat_emod]
  case h_3 hgroup hn =>
    have hi : Instruction.decode op = some (.or op.x op.y) := by
      simp only [Instruction.decode, Instruction.decodeArithmetic, hgroup, hn]
    obtain rfl := Option.some.inj hc
    refine ⟨_, _, hi, .inl ⟨execute_accepted (i := .or op.x op.y) hxy trivial rfl, ?_⟩⟩
    rw [toNat_emod, BitVec.toNat_or]
  case h_4 hgroup hn =>
    have hi : Instruction.decode op = some (.and op.x op.y) := by
      simp only [Instruction.decode, Instruction.decodeArithmetic, hgroup, hn]
    obtain rfl := Option.some.inj hc
    refine ⟨_, _, hi, .inl ⟨execute_accepted (i := .and op.x op.y) hxy trivial rfl, ?_⟩⟩
    rw [toNat_emod, BitVec.toNat_and]
  case h_5 hgroup hn =>
    have hi : Instruction.decode op = some (.xor op.x op.y) := by
      simp only [Instruction.decode, Instruction.decodeArithmetic, hgroup, hn]
    obtain rfl := Option.some.inj hc
    refine ⟨_, _, hi, .inl ⟨execute_accepted (i := .xor op.x op.y) hxy trivial rfl, ?_⟩⟩
    rw [toNat_emod, BitVec.toNat_xor]
  case h_6 hgroup hn =>
    have hi : Instruction.decode op = some (.add op.x op.y) := by
      simp only [Instruction.decode, Instruction.decodeArithmetic, hgroup, hn]
    obtain rfl := Option.some.inj hc
    exact ⟨_, _, hi, .inr ⟨_, execute_accepted (i := .add op.x op.y) hxy trivial rfl, rfl⟩⟩
  case h_7 hgroup hn =>
    have hi : Instruction.decode op = some (.sub op.x op.y) := by
      simp only [Instruction.decode, Instruction.decodeArithmetic, hgroup, hn]
    obtain rfl := Option.some.inj hc
    exact ⟨_, _, hi, .inr ⟨_, execute_accepted (i := .sub op.x op.y) hxy trivial rfl, rfl⟩⟩
  case h_8 hgroup hn =>
    have hi : Instruction.decode op = some (.shiftRight op.x op.y) := by
      simp only [Instruction.decode, Instruction.decodeArithmetic, hgroup, hn]
    obtain rfl := Option.some.inj hc
    refine ⟨_, _, hi, .inr ⟨_, execute_accepted (i := .shiftRight op.x op.y) hxy trivial rfl, ?_⟩⟩
    rw [toNat_emod, BitVec.toNat_ushiftRight, Nat.shiftRight_eq_div_pow, Nat.pow_one, BitVec.getLsbD,
      Nat.testBit_zero]
  case h_9 hgroup hn =>
    have hi : Instruction.decode op = some (.subFrom op.x op.y) := by
      simp only [Instruction.decode, Instruction.decodeArithmetic, hgroup, hn]
    obtain rfl := Option.some.inj hc
    exact ⟨_, _, hi, .inr ⟨_, execute_accepted (i := .subFrom op.x op.y) hxy trivial rfl, rfl⟩⟩
  case h_10 hgroup hn =>
    have hi : Instruction.decode op = some (.shiftLeft op.x op.y) := by
      simp only [Instruction.decode, Instruction.decodeArithmetic, hgroup, hn]
    obtain rfl := Option.some.inj hc
    have hflag : decide (128 ≤ (m.shiftSource op.x op.y).toNat) =
        decide (256 ≤ 2 * (m.shiftSource op.x op.y).toNat) := decide_eq_decide.2 (by omega)
    refine ⟨_, _, hi, .inr ⟨_, execute_accepted (i := .shiftLeft op.x op.y) hxy trivial rfl, ?_⟩⟩
    rw [hflag]
  case h_11 => exact nomatch hc

/-- **Arithmetic is right under every aliasing.** With the numbers `a`, `b` and `s` read before anything is
written, an instruction of the table always completes; the flag register ends as the flag even when it was
the destination or an operand, the destination as the result unless it is the flag register, and the other
registers as they were, those beside the general ones included. A step that finds the instruction leaves the
same general registers. -/
theorem execute_computation
    (hc : let a := (m.registers.byte op.x).toNat
      let b := (m.registers.byte op.y).toNat
      op.computation? a b (if m.dialect.shiftSource = .vx then a else b) = some c) :
    ∃ i r', Instruction.decode op = some i ∧
      execute i m = .ok .next { m with registers := r' } ∧
      m.registers.Computed r' op.x c ∧ { r' with v := m.registers.v } = m.registers ∧
      (m.registers.pc.toNat ≤ 4094 → m.memory.word m.registers.pc.toNat = op →
        ∃ m', step m = .ok i m' ∧ m'.registers.v = r'.v) := by
  have htable : op.computation? (m.registers.byte op.x).toNat (m.registers.byte op.y).toNat
      (m.shiftSource op.x op.y).toNat = some c := by rwa [toNat_shiftSource]
  obtain ⟨i, n, hi, hrun⟩ := execute_put_or_flag htable
  have hstep : ∀ r', execute i m = .ok .next { m with registers := r' } →
      m.registers.pc.toNat ≤ 4094 → m.memory.word m.registers.pc.toNat = op →
        ∃ m', step m = .ok i m' ∧ m'.registers.v = r'.v := fun r' hrun hpc hop => by
    rw [step_execute hpc (by rw [instruction?, hop, hi]), hrun]
    exact ⟨_, rfl, rfl⟩
  rcases hrun with ⟨hrun, rfl⟩ | ⟨flag, hrun, rfl⟩
  · exact ⟨i, _, hi, hrun, Registers.computed_put op.x_lt, rfl, hstep _ hrun⟩
  · exact ⟨i, _, hi, hrun, Registers.computed_setFlag op.x_lt flag, rfl, hstep _ hrun⟩

/-- Doubling the flag register: the sum 400 leaves the carry, not the 144 that was written first. -/
theorem execute_computation_flag :
    let m : Machine ScriptedKeypad :=
      { withOpcode 0x8ff4 (.holding []) with registers := powerOn.put 15 200 }
    ∃ m', step m = .ok (.add 15 15) m' ∧ (m'.registers.byte 15).toNat = 1 := by
  intro m
  have htable : Opcode.computation? 0x8ff4 200 200 200 = some ⟨144, some true⟩ := by decide
  obtain ⟨i, r', hi, -, hcomputed, -, hstep⟩ := execute_computation (m := m) htable
  obtain ⟨m', hrun, hv⟩ := hstep (by decide) (Memory.word_store _ (by decide))
  obtain rfl : .add 15 15 = i := Option.some.inj hi
  refine ⟨m', hrun, ?_⟩
  rw [Registers.byte, hv]
  exact hcomputed.1

end Machine

end Chip8
