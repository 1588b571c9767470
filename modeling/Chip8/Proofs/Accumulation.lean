import Chip8.Proofs.Arithmetic
import Chip8.Proofs.Outcomes

/-!
# Proofs/Accumulation — what is added to a register and taken from it adds up

A register that constants and other registers are added to and subtracted from ends as the number it held plus
the sum of all these summands, cut to eight bits once: cutting after every instruction makes no difference
(`byte_sumUp`), since what a write leaves in the flags of a register is not read by the next one. The summands
stay as they were, and so does the flag register until an instruction that sets it.
-/

namespace Chip8

/-- What an instruction adds to a register. -/
inductive Summand where
  /-- A constant; there is no carry. -/
  | const (nn : Byte)
  /-- The number in register `y`. -/
  | plus (y : Nat)
  /-- The number in register `y`, subtracted. -/
  | minus (y : Nat)
deriving DecidableEq, Repr

namespace Summand

/-- The instruction that adds it to register `x`. -/
def instruction (x : Nat) : Summand → Instruction
  | const nn => .addByte x nn
  | plus y => .add x y
  | minus y => .sub x y

/-- The number that it stands for. -/
def amount (r : Registers) : Summand → Int
  | const nn => nn.toNat
  | plus y => (r.byte y).toNat
  | minus y => -(r.byte y).toNat

/-- The sum of some of them. -/
def total (r : Registers) : List Summand → Int
  | [] => 0
  | s :: summands => s.amount r + total r summands

/-- The flag that goes with adding it to the number `a`: a carry, or that there is no borrow. -/
def flag? (r : Registers) (a : Nat) : Summand → Option Bool
  | const _ => none
  | plus y => some (256 ≤ a + (r.byte y).toNat)
  | minus y => some ((r.byte y).toNat ≤ a)

/-- It is not in register `x`, nor in the flag register. -/
def Apart (x : Nat) : Summand → Prop
  | const _ => True
  | plus y | minus y => y < 16 ∧ y ≠ x ∧ y ≠ 15

theorem total_perm {r : Registers} {summands summands' : List Summand} (h : summands.Perm summands') :
    total r summands = total r summands' := by
  induction h with
  | nil => rfl
  | cons s _ ih => rw [total, total, ih]
  | swap s t summands => rw [total, total, total, total, Int.add_left_comm]
  | trans _ _ ih₁ ih₂ => exact ih₁.trans ih₂

theorem total_congr {r r' : Registers} {summands : List Summand}
    (h : ∀ s ∈ summands, s.amount r = s.amount r') : total r summands = total r' summands := by
  induction summands with
  | nil => rfl
  | cons s summands ih =>
    obtain ⟨hs, hrest⟩ := List.forall_mem_cons.1 h
    rw [total, total, hs, ih hrest]

end Summand

namespace Registers

variable {r : Registers} {x : Nat} {s : Summand} {summands : List Summand}

/-- The register file after a summand is added to register `x`. -/
def addUp (x : Nat) (r : Registers) (s : Summand) : Registers :=
  let sum := r.put x ((r.byte x).toNat + s.amount r)
  match s.flag? r (r.byte x).toNat with
  | some flag => sum.setFlag flag
  | none => sum

/-- The register file after some summands are added to register `x`, one after the other. -/
def sumUp (x : Nat) (r : Registers) (summands : List Summand) : Registers := summands.foldl (addUp x) r

/-! ## One summand -/

theorem addUp_frame : r.addUp x s = { r with v := (r.addUp x s).v } := by
  cases s <;> rfl

/-- The program counter has no part in a sum. -/
theorem addUp_pc (pc : Register 16) : { r with pc }.addUp x s = { r.addUp x s with pc } := by
  cases s <;> rfl

theorem getElem_addUp {i : Nat} (hi : i < 16) (hx : i ≠ x) (hflag : i ≠ 15) :
    (r.addUp x s).v[i] = r.v[i] := by
  rw [addUp]
  cases s.flag? r (r.byte x).toNat with
  | some flag => exact (getElem_setFlag_of_ne hi hflag).trans (getElem_put_of_ne hi hx)
  | none => exact getElem_put_of_ne hi hx

theorem byte_addUp {i : Nat} (hi : i < 16) (hx : i ≠ x) (hflag : i ≠ 15) :
    (r.addUp x s).byte i = r.byte i := by
  rw [← byte_getElem hi, getElem_addUp hi hx hflag, byte_getElem hi]

theorem computed_addUp (hx : x < 16) : r.Computed (r.addUp x s) x
    { result := ((r.byte x).toNat + s.amount r) % 256, flag := s.flag? r (r.byte x).toNat } := by
  cases s with
  | const nn => exact computed_put hx
  | plus y | minus y => exact computed_setFlag hx _

theorem byte_addUp_self (hx : x < 15) :
    (((r.addUp x s).byte x).toNat : Int) = ((r.byte x).toNat + s.amount r) % 256 := by
  have hcomputed := computed_addUp (r := r) (s := s) (Nat.lt_succ_of_lt hx)
  cases s with
  | const nn => exact hcomputed.1
  | plus y | minus y => exact hcomputed.2.1 (Nat.ne_of_lt hx)

theorem byte_addUp_flag (hx : x < 15) {flag : Bool} (h : s.flag? r (r.byte x).toNat = some flag) :
    ((r.addUp x s).byte 15).toNat = if flag then 1 else 0 := by
  have hcomputed := computed_addUp (r := r) (s := s) (Nat.lt_succ_of_lt hx)
  rw [h] at hcomputed
  exact hcomputed.1

theorem flag_addUp_const (hx : x < 15) (nn : Byte) : (r.addUp x (.const nn)).v[15] = r.v[15] := by
  rw [addUp, Summand.flag?, getElem_put_of_ne (by decide) (Nat.ne_of_gt hx)]

/-! ## One after the other -/

theorem sumUp_cons : r.sumUp x (s :: summands) = (r.addUp x s).sumUp x summands := rfl

theorem sumUp_append (summands summands' : List Summand) :
    r.sumUp x (summands ++ summands') = (r.sumUp x summands).sumUp x summands' := List.foldl_append

theorem sumUp_frame : r.sumUp x summands = { r with v := (r.sumUp x summands).v } := by
  induction summands generalizing r with
  | nil => rfl
  | cons s summands ih => rw [sumUp_cons, ih, addUp_frame]

theorem getElem_sumUp {i : Nat} (hi : i < 16) (hx : i ≠ x) (hflag : i ≠ 15) :
    (r.sumUp x summands).v[i] = r.v[i] := by
  induction summands generalizing r with
  | nil => rfl
  | cons s summands ih => rw [sumUp_cons, ih, getElem_addUp hi hx hflag]

theorem flag_sumUp_const (hx : x < 15) (consts : ∀ s ∈ summands, ∃ nn, s = .const nn) :
    (r.sumUp x summands).v[15] = r.v[15] := by
  induction summands generalizing r with
  | nil => rfl
  | cons s summands ih =>
    obtain ⟨⟨nn, rfl⟩, hrest⟩ := List.forall_mem_cons.1 consts
    rw [sumUp_cons, ih hrest, flag_addUp_const hx]

/-- The flag is that of the last summand that sets one. -/
theorem flag_sumUp (hx : x < 15) {before after : List Summand} {flag : Bool}
    (h : s.flag? (r.sumUp x before) ((r.sumUp x before).byte x).toNat = some flag)
    (consts : ∀ t ∈ after, ∃ nn, t = .const nn) :
    ((r.sumUp x (before ++ s :: after)).byte 15).toNat = if flag then 1 else 0 := by
  rw [sumUp_append, sumUp_cons, ← byte_getElem (by decide), flag_sumUp_const hx consts,
    byte_getElem (by decide)]
  exact byte_addUp_flag hx h

/-- A summand that is apart from register `x` still stands for the same number after others were added. -/
theorem amount_addUp (apart : s.Apart x) (t : Summand) : s.amount (r.addUp x t) = s.amount r := by
  cases s with
  | const nn => rfl
  | plus y | minus y => rw [Summand.amount, Summand.amount, byte_addUp apart.1 apart.2.1 apart.2.2]

/-- **The register is cut to eight bits once**, whatever was added to it and taken from it. By induction on the
summands. -/
theorem byte_sumUp (hx : x < 15) (apart : ∀ s ∈ summands, s.Apart x) :
    (((r.sumUp x summands).byte x).toNat : Int) =
      ((r.byte x).toNat + Summand.total r summands) % 256 := by
  induction summands generalizing r with
  | nil =>
    rw [Summand.total, Int.add_zero]
    exact (Machine.toNat_emod _).symm
  | cons s summands ih =>
    obtain ⟨hs, hrest⟩ := List.forall_mem_cons.1 apart
    have hsame : Summand.total (r.addUp x s) summands = Summand.total r summands :=
      Summand.total_congr fun t ht => amount_addUp (hrest t ht) s
    rw [sumUp_cons, ih hrest, hsame, byte_addUp_self hx, Int.emod_add_emod, Summand.total, Int.add_assoc]

/-- Adding a register and subtracting it again: the borrow of the second cancels the carry of the first. -/
theorem sumUp_plus_minus (hx : x < 15) {y : Nat} (hy : y < 16) (hyx : y ≠ x) (hflag : y ≠ 15) :
    (r.sumUp x [.plus y, .minus y]).byte x = r.byte x ∧
      ((r.sumUp x [.plus y, .minus y]).byte 15).toNat =
        if (r.byte x).toNat + (r.byte y).toNat < 256 then 1 else 0 := by
  have hadded : (((r.addUp x (.plus y)).byte x).toNat : Int) = ((r.byte x).toNat + (r.byte y).toNat) % 256 :=
    byte_addUp_self hx
  have hkept : (r.addUp x (.plus y)).byte y = r.byte y := byte_addUp hy hyx hflag
  rw [sumUp_cons, sumUp_cons]
  generalize r.addUp x (.plus y) = added at hadded hkept
  have hrestored : (((added.addUp x (.minus y)).byte x).toNat : Int) =
      ((added.byte x).toNat + -(added.byte y).toNat) % 256 := byte_addUp_self hx
  have hborrow := byte_addUp_flag (r := added) (s := .minus y) hx rfl
  rw [hkept] at hrestored hborrow
  refine ⟨BitVec.eq_of_toNat_eq ?_, hborrow.trans ?_⟩
  · show ((added.addUp x (.minus y)).byte x).toNat = (r.byte x).toNat
    omega
  · have hcarry : (r.byte y).toNat ≤ (added.byte x).toNat ↔ (r.byte x).toNat + (r.byte y).toNat < 256 := by
      omega
    simp only [decide_eq_true_iff, hcarry]

end Registers

namespace Machine

variable {κ : Type} [Keypad κ] {m : Machine κ} {x : Nat} {s : Summand} {summands : List Summand}

/-! ## Machines -/

/-- Carries out instructions one after the other. -/
def executeAll : List Instruction → MachineM κ Unit
  | [] => pure ()
  | i :: is => do
    discard (execute i)
    executeAll is

theorem execute_summand (hx : x < 15) (apart : s.Apart x) :
    execute (s.instruction x) m = .ok .next { m with registers := m.registers.addUp x s } := by
  have hx16 : x < 16 := Nat.lt_succ_of_lt hx
  cases s with
  | const nn => exact execute_accepted (i := .addByte x nn) hx16 trivial rfl
  | plus y => exact execute_accepted (i := .add x y) ⟨hx16, apart.1⟩ trivial rfl
  | minus y => exact execute_accepted (i := .sub x y) ⟨hx16, apart.1⟩ trivial rfl

theorem executeAll_summands (hx : x < 15) (apart : ∀ s ∈ summands, s.Apart x) :
    executeAll (summands.map (Summand.instruction x)) m =
      .ok () { m with registers := m.registers.sumUp x summands } := by
  induction summands generalizing m with
  | nil => rfl
  | cons s summands ih =>
    obtain ⟨hs, hrest⟩ := List.forall_mem_cons.1 apart
    rw [List.map_cons, executeAll, bind_run, discard_run, execute_summand hx hs]
    exact ih hrest

/-- Steps that come to these instructions one after the other. By induction on the steps. -/
theorem afterSteps_summands (hx : x < 15) (apart : ∀ s ∈ summands, s.Apart x)
    (fetched : ∀ k (h : k < summands.length), (m.afterSteps k).fetched? = some (summands[k].instruction x))
    {k : Nat} (hk : k ≤ summands.length) :
    ∃ pc, (m.afterSteps k).registers = { m.registers.sumUp x (summands.take k) with pc } := by
  induction k with
  | zero => exact ⟨_, rfl⟩
  | succ k ih =>
    obtain ⟨pc, hbefore⟩ := ih (Nat.le_of_lt hk)
    have hs := apart _ (List.getElem_mem hk)
    obtain ⟨reach, hi⟩ := fetched?_eq_some.1 (fetched k hk)
    have hstep := step_execute reach hi
    rw [execute_summand hx hs] at hstep
    rw [afterSteps, stepped_of_ok hstep, List.take_succ_eq_append_getElem hk, Registers.sumUp_append]
    refine ⟨((m.afterSteps k).registers.addUp x summands[k]).advance.pc, ?_⟩
    show ((m.afterSteps k).registers.addUp x summands[k]).advance = _
    rw [hbefore, Registers.addUp_pc]
    rfl

/-- **What is added and subtracted adds up modulo 256, in whatever order.** Instructions that add constants and
other registers to register `x`, and subtract others from it, always complete. They leave in it the number it
held plus the sum of the summands, as these were at the beginning; another order leaves the same number. The
flag register is as the last instruction left it that sets it, by the number it was added to, and no other
register changes. Steps that come to these instructions leave the same general registers. Adding a register and
subtracting it again restores the number, and leaves 1 in the flag register if there was no carry. -/
theorem sums_accumulate (m : Machine κ) (hx : x < 15) :
    (∀ summands, (∀ s ∈ summands, s.Apart x) →
      ∃ m', executeAll (summands.map (Summand.instruction x)) m = .ok () m' ∧
        ((m'.registers.byte x).toNat : Int) =
          ((m.registers.byte x).toNat + Summand.total m.registers summands) % 256 ∧
        (∀ summands' : List Summand, summands'.Perm summands →
          ∃ m'', executeAll (summands'.map (Summand.instruction x)) m = .ok () m'' ∧
            m''.registers.byte x = m'.registers.byte x) ∧
        m' = { m with registers := { m.registers with v := m'.registers.v } } ∧
        (∀ i (h : i < 16), i ≠ x → i ≠ 15 → m'.registers.v[i] = m.registers.v[i]) ∧
        ((∀ s ∈ summands, ∃ nn, s = .const nn) → m'.registers.v[15] = m.registers.v[15]) ∧
        (∀ before s after, summands = before ++ s :: after → (∀ t ∈ after, ∃ nn, t = .const nn) →
          ∃ n, executeAll (before.map (Summand.instruction x)) m = .ok () n ∧
            ∀ flag, s.flag? n.registers (n.registers.byte x).toNat = some flag →
              (m'.registers.byte 15).toNat = if flag then 1 else 0) ∧
        ((∀ k (h : k < summands.length),
            (m.afterSteps k).fetched? = some (summands[k].instruction x)) →
          (m.afterSteps summands.length).registers.v = m'.registers.v)) ∧
    ∀ y < 16, y ≠ x → y ≠ 15 → ∃ m', executeAll [.add x y, .sub x y] m = .ok () m' ∧
      m'.registers.byte x = m.registers.byte x ∧
      (m'.registers.byte 15).toNat =
        if (m.registers.byte x).toNat + (m.registers.byte y).toNat < 256 then 1 else 0 := by
  refine ⟨fun summands apart => ?_, fun y hy hyx hflag => ?_⟩
  · have hsum := Registers.byte_sumUp (r := m.registers) hx apart
    refine ⟨_, executeAll_summands hx apart, hsum, fun summands' perm => ?_, ?_, ?_, ?_, ?_, ?_⟩
    · have apart' : ∀ s ∈ summands', s.Apart x := fun s hs => apart s (perm.mem_iff.1 hs)
      refine ⟨_, executeAll_summands hx apart', BitVec.eq_of_toNat_eq (Int.natCast_inj.1 ?_)⟩
      rw [hsum, ← Summand.total_perm perm]
      exact Registers.byte_sumUp hx apart'
    · exact congrArg (fun registers => { m with registers }) Registers.sumUp_frame
    · exact fun i hi hne hflag => Registers.getElem_sumUp hi hne hflag
    · exact Registers.flag_sumUp_const hx
    · rintro before s after rfl consts
      have hbefore := (List.forall_mem_append.1 apart).1
      exact ⟨_, executeAll_summands hx hbefore, fun flag hflag => Registers.flag_sumUp hx hflag consts⟩
    · intro fetched
      obtain ⟨pc, hsteps⟩ := afterSteps_summands hx apart fetched (Nat.le_refl _)
      rw [hsteps, List.take_length]
  · have apart : ∀ s ∈ [Summand.plus y, .minus y], s.Apart x :=
      List.forall_mem_cons.2 ⟨⟨hy, hyx, hflag⟩, List.forall_mem_singleton.2 ⟨hy, hyx, hflag⟩⟩
    exact ⟨_, executeAll_summands hx apart, Registers.sumUp_plus_minus hx hy hyx hflag⟩

/-- 200 + 100 + 7 leaves 51 and the carry of the first sum; 200 + 100 - 100 leaves 200 and a borrow. -/
theorem sums_accumulate_carry :
    let m : Machine ScriptedKeypad :=
      { Machine.new (.holding []) {} (.ofSeed 0) with registers := (powerOn.put 1 200).put 2 100 }
    ∃ m₁ m₂, executeAll [.add 1 2, .addByte 1 7] m = .ok () m₁ ∧ (m₁.registers.byte 1).toNat = 51 ∧
      (m₁.registers.byte 15).toNat = 1 ∧ executeAll [.add 1 2, .sub 1 2] m = .ok () m₂ ∧
      (m₂.registers.byte 1).toNat = 200 ∧ (m₂.registers.byte 15).toNat = 0 := by
  intro m
  have hx : (m.registers.byte 1).toNat = 200 := by decide
  have hy : (m.registers.byte 2).toNat = 100 := by decide
  obtain ⟨hsums, hpairs⟩ := sums_accumulate m (x := 1) (by decide)
  obtain ⟨m₁, hrun₁, hsum, -, -, -, -, hflag, -⟩ := hsums [.plus 2, .const 7] <|
    List.forall_mem_cons.2 ⟨⟨by decide, by decide, by decide⟩, List.forall_mem_singleton.2 trivial⟩
  obtain ⟨n, hnone, hcarry⟩ := hflag [] (.plus 2) [.const 7] rfl (List.forall_mem_singleton.2 ⟨7, rfl⟩)
  obtain ⟨-, rfl⟩ := EStateM.Result.ok.inj hnone
  obtain ⟨m₂, hrun₂, hrestored, hborrow⟩ := hpairs 2 (by decide) (by decide) (by decide)
  refine ⟨m₁, m₂, hrun₁, ?_, hcarry true ?_, hrun₂, hrestored ▸ hx, ?_⟩
  · have hamounts : Summand.total m.registers [.plus 2, .const 7] = 107 := by decide
    rw [hamounts, hx] at hsum
    exact Int.natCast_inj.1 hsum
  · rw [Summand.flag?, hx, hy]
    rfl
  · rw [hborrow, hx, hy, if_neg (by decide)]

end Machine

end Chip8
