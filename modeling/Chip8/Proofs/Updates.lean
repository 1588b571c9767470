import Chip8.Config
import Chip8.Registers

/-!
# Proofs/Updates — the register file as a function of the number

A checked write inside the register file is a total update: `Registers.put` and `setFlag` write one
general register and `load` the first few, `goto`, `advance` and `skip` the program counter, `pass` the
index. `getElem_put` and `getElem_load` read the general registers back.
-/

namespace Chip8

namespace Register

/-- A register with both flags lowered. -/
def Quiet {width : Nat} (r : Register width) : Prop := r.overflowed = false ∧ r.borrowed = false

/-- A number that fits is written as it is, and raises no flag. -/
theorem ofInt_eq_ofNat {width n : Nat} (h : n < modulus width) :
    (ofInt n : Register width) = ofNat n := by
  have hv : BitVec.ofInt width (n : Int) = BitVec.ofNat width n := BitVec.ofInt_natCast width n
  have ho : ¬ (modulus width : Int) ≤ n := by omega
  have hb : ¬ (n : Int) < 0 := by omega
  rw [ofInt, ofNat, hv, decide_eq_false ho, decide_eq_false hb]

theorem quiet_ofInt {width n : Nat} (h : n < modulus width) : (ofInt n : Register width).Quiet := by
  rw [ofInt_eq_ofNat h]
  exact ⟨rfl, rfl⟩

/-- A quiet register is what writing its own number makes of it. -/
theorem ofInt_toNat {width : Nat} {r : Register width} (h : r.Quiet) : ofInt r.toNat = r := by
  rw [ofInt_eq_ofNat r.toNat_lt, ofNat, toNat, BitVec.ofNat_toNat, BitVec.setWidth_eq]
  obtain ⟨v, o, b⟩ := r
  obtain ⟨rfl, rfl⟩ : o = false ∧ b = false := h
  rfl

theorem toNat_ofInt_natCast {width n : Nat} (h : n < modulus width) :
    (ofInt n : Register width).toNat = n := by
  rw [ofInt_eq_ofNat h, toNat_ofNat, Nat.mod_eq_of_lt h]

theorem byte_ofInt_toNat (b : Byte) : (ofInt b.toNat : Register 8).byte = b := by
  rw [byte, ofInt, BitVec.setWidth_eq, BitVec.ofInt_natCast, BitVec.ofNat_toNat, BitVec.setWidth_eq]

@[simp] theorem toNat_value {width : Nat} (r : Register width) : r.value.toNat = r.toNat := rfl

/-- No write raises both flags. -/
theorem not_overflowed_and_borrowed_ofInt {width : Nat} (v : Int) :
    ¬ ((ofInt v : Register width).overflowed = true ∧ (ofInt v : Register width).borrowed = true) := by
  rw [overflowed_ofInt, borrowed_ofInt, decide_eq_true_iff, decide_eq_true_iff]
  have := Int.natCast_nonneg (modulus width)
  omega

end Register

namespace Registers

variable {r : Registers} {x i : Nat} {n d : Int} {b c : Bool}

/-- The byte in general register `x`, zero where there is no such register. -/
def byte (r : Registers) (x : Nat) : Byte := (r.v[x]?.map Register.byte).getD 0

/-- The register file with `n` written to general register `x`. -/
def put (r : Registers) (x : Nat) (n : Int) : Registers :=
  { r with v := r.v.setIfInBounds x (.ofInt n) }

/-- The register file with the program counter at `addr`. -/
def goto (r : Registers) (addr : Word) : Registers := { r with pc := .ofInt addr.toNat }

/-- The register file with the program counter one instruction on. -/
def advance (r : Registers) : Registers := { r with pc := .ofInt (r.pc.toNat + 2) }

/-- The register file after a skip that is taken if `c` holds. -/
def skip (r : Registers) (c : Bool) : Registers := if c then r.advance else r

/-- The register file after a transfer of `n` registers: in the dialect that does so, the index is past
their block. -/
def pass (r : Registers) (d : Dialect) (n : Nat) : Registers :=
  if d.advancesIndex then { r with index := .ofInt (r.index.toNat + n) } else r

/-- The bytes in the first `n` general registers. -/
def block (r : Registers) (n : Nat) : List Byte := (List.range n).map r.byte

/-- The register file with the bytes of `data` written to the general registers from 0 on. -/
def load (r : Registers) (data : List Byte) : Registers :=
  { r with v := .ofFn fun i => if h : i.val < data.length then .ofInt data[i.val].toNat else r.v[i] }

@[simp] theorem byte_getElem (h : x < 16) : r.v[x].byte = r.byte x := by
  rw [byte, Vector.getElem?_eq_getElem h]
  rfl

@[simp] theorem toNat_getElem (h : x < 16) : r.v[x].toNat = (r.byte x).toNat := by
  rw [← byte_getElem h, Register.toNat_byte]

/-! ## Checked accesses -/

theorem read_eq_byte (h : x < 16) : r.read x = .ok (r.byte x) := by rw [read_eq_ok h, byte_getElem]

theorem writeInt_eq_put (h : x < 16) (n : Int) : r.writeInt x n = .ok (r.put x n) := by
  rw [writeInt_eq_ok h, put, Vector.setIfInBounds, Vector.set]
  simp only [Array.setIfInBounds, Vector.size_toArray, h, dite_true]

theorem write_eq_put (h : x < 16) (b : Byte) : r.write x b = .ok (r.put x b.toNat) :=
  writeInt_eq_put h _

theorem add_eq_put (h : x < 16) (hd : d < 65536) : r.add x d = .ok (r.put x ((r.byte x).toNat + d)) := by
  rw [add_eq_ok h hd, toNat_getElem, ← writeInt_eq_put h, writeInt_eq_ok h]

theorem setFlag_eq_put : r.setFlag b = r.put 15 (if b then 1 else 0) := by
  have h := writeInt_eq_put (r := r) (by decide : 15 < 16) (if b then 1 else 0)
  rw [writeInt_eq_ok (by decide)] at h
  exact Except.ok.inj h

/-! ## A general register after an update -/

theorem getElem_put (h : i < 16) :
    (r.put x n).v[i] = if x = i then .ofInt n else r.v[i] := Vector.getElem_setIfInBounds h

theorem getElem_put_of_ne (h : i < 16) (hne : i ≠ x) : (r.put x n).v[i] = r.v[i] := by
  rw [getElem_put h, if_neg (Ne.symm hne)]

theorem getElem_setFlag_of_ne (h : i < 16) (hne : i ≠ 15) : (r.setFlag b).v[i] = r.v[i] := by
  rw [setFlag_eq_put, getElem_put_of_ne h hne]

theorem byte_put_self (h : x < 16) : (r.put x n).byte x = BitVec.ofInt 8 n := by
  rw [← byte_getElem h, getElem_put h, if_pos rfl, Register.byte, Register.ofInt, BitVec.setWidth_eq]

theorem byte_put_byte (h : x < 16) (b : Byte) : (r.put x b.toNat).byte x = b := by
  rw [← byte_getElem h, getElem_put h, if_pos rfl, Register.byte_ofInt_toNat]

/-! ## Blocks of registers -/

@[simp] theorem length_block (r : Registers) (k : Nat) : (r.block k).length = k := by
  rw [block, List.length_map, List.length_range]

@[simp] theorem getElem_block {k : Nat} (h : i < (r.block k).length) : (r.block k)[i] = r.byte i := by
  simp only [block, List.getElem_map, List.getElem_range]

theorem block_succ (r : Registers) (k : Nat) : r.block (k + 1) = r.block k ++ [r.byte k] := by
  rw [block, List.range_succ, List.map_append, List.map_singleton, block]

theorem getElem_load (r : Registers) (data : List Byte) (h : i < 16) :
    (r.load data).v[i] = if hi : i < data.length then .ofInt data[i].toNat else r.v[i] :=
  Vector.getElem_ofFn h

theorem byte_load (r : Registers) {data : List Byte} (h : i < 16) (hi : i < data.length) :
    (r.load data).byte i = data[i] := by
  rw [← byte_getElem h, getElem_load r data h, dif_pos hi, Register.byte_ofInt_toNat]

/-- Register files that differ at most in the general registers are equal when these agree. -/
theorem ext_v {r r' : Registers} (hv : ∀ i (h : i < 16), r.v[i] = r'.v[i])
    (h : { r with v := r'.v } = r') : r = r' := by
  have hvec : r.v = r'.v := Vector.ext hv
  rw [← h, ← hvec]

theorem load_nil (r : Registers) : r.load [] = r := by
  have hother : { r.load [] with v := r.v } = r := by simp only [load]
  refine ext_v (fun i hi => ?_) hother
  rw [getElem_load r [] hi]
  simp only [List.length_nil, Nat.not_lt_zero, dite_false]

/-- Loading one byte more writes one register more. -/
theorem load_append (r : Registers) (data : List Byte) (b : Byte) :
    r.load (data ++ [b]) = (r.load data).put data.length b.toNat := by
  have hother : { r.load (data ++ [b]) with v := ((r.load data).put data.length b.toNat).v } =
      (r.load data).put data.length b.toNat := rfl
  refine ext_v (fun i hi => ?_) hother
  rw [getElem_put hi, getElem_load r _ hi, getElem_load r _ hi]
  have hlen : (data ++ [b]).length = data.length + 1 := List.length_append
  rcases Nat.lt_trichotomy i data.length with hlt | heq | hgt
  · rw [dif_pos (by omega), if_neg (by omega), dif_pos hlt, List.getElem_append_left hlt]
  · rw [dif_pos (by omega), if_pos heq.symm, List.getElem_append_right (by omega)]
    simp only [heq, Nat.sub_self, List.getElem_cons_zero]
  · rw [dif_neg (by omega), if_neg (by omega), dif_neg (by omega)]

/-! ## The other registers after an update -/

@[simp] theorem value_pc_goto {addr : Word} : (r.goto addr).pc.value = addr := by
  show BitVec.ofInt 16 (addr.toNat : Int) = addr
  rw [BitVec.ofInt_natCast, BitVec.ofNat_toNat, BitVec.setWidth_eq]

/-- A skip moves the program counter and nothing else. -/
theorem skip_frame : r.skip c = { r with pc := (r.skip c).pc } := by
  cases c <;> rfl

/-- A transfer moves the index on or leaves it, and nothing else. -/
theorem pass_frame {d : Dialect} {k : Nat} : r.pass d k = { r with index := (r.pass d k).index } := by
  rw [pass]
  split <;> rfl

@[simp] theorem v_skip : (r.skip c).v = r.v := by rw [skip_frame]

@[simp] theorem index_skip : (r.skip c).index = r.index := by rw [skip_frame]

@[simp] theorem delay_skip : (r.skip c).delay = r.delay := by rw [skip_frame]

@[simp] theorem sound_skip : (r.skip c).sound = r.sound := by rw [skip_frame]

@[simp] theorem index_load {data : List Byte} : (r.load data).index = r.index := by rw [load]

@[simp] theorem delay_load {data : List Byte} : (r.load data).delay = r.delay := by rw [load]

@[simp] theorem sound_load {data : List Byte} : (r.load data).sound = r.sound := by rw [load]

@[simp] theorem v_pass {d : Dialect} {k : Nat} : (r.pass d k).v = r.v := by rw [pass_frame]

@[simp] theorem byte_pass {d : Dialect} {k : Nat} : (r.pass d k).byte x = r.byte x := by
  rw [byte, v_pass, byte]

@[simp] theorem delay_pass {d : Dialect} {k : Nat} : (r.pass d k).delay = r.delay := by
  rw [pass_frame]

@[simp] theorem sound_pass {d : Dialect} {k : Nat} : (r.pass d k).sound = r.sound := by
  rw [pass_frame]

@[simp] theorem pc_load {data : List Byte} : (r.load data).pc = r.pc := by rw [load]

@[simp] theorem pc_pass {d : Dialect} {k : Nat} : (r.pass d k).pc = r.pc := by rw [pass_frame]

@[simp] theorem sp_advance : r.advance.sp = r.sp := rfl

@[simp] theorem sp_skip : (r.skip c).sp = r.sp := by
  rw [skip, apply_ite Registers.sp, sp_advance, ite_self]

@[simp] theorem sp_load {data : List Byte} : (r.load data).sp = r.sp := by rw [load]

@[simp] theorem sp_pass {d : Dialect} {k : Nat} : (r.pass d k).sp = r.sp := by
  rw [pass, apply_ite Registers.sp, ite_self]

end Registers

end Chip8
