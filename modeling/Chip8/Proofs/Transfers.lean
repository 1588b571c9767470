import Chip8.Proofs.Operations

/-!
# Proofs/Transfers — the loops that store and load registers

A transfer goes through the registers one at a time, each with its own check of the address. Inside the
memory the loop is a single write of a block (`storeRegisters_run`, `loadRegisters_run`). Past the end
it stops at the first byte that is not there, and since every earlier iteration has completed, the sums
of addresses after it are never taken (`storeRegisters_fault`, `loadRegisters_fault`).
-/

namespace Chip8.Machine

variable {κ : Type} {m : Machine κ} {base : Word} {x n : Nat}

/-! ## Loops -/

theorem forM_range_succ (f : Nat → MachineM κ PUnit) (n : Nat) (m : Machine κ) :
    (List.range (n + 1)).forM f m = match (List.range n).forM f m with
      | .ok _ m' => f n m'
      | .error e m' => .error e m' := by
  have happend : (List.range (n + 1)).forM f = (List.range n).forM f >>= fun _ => f n := by
    have hone : (fun (_ : PUnit) => forM [n] f) = fun _ => f n := by
      rw [List.forM_cons, List.forM_nil, bind_pure_unit]
    rw [List.range_succ, List.forM_eq_forM, List.forM_append, hone]
  rw [happend, bind_run]
  cases (List.range n).forM f m <;> rfl

/-- A loop stops where one of its iterations does. -/
theorem forM_range_error {f : Nat → MachineM κ PUnit} {k n : Nat} {m' m'' : Machine κ} {e : Stop}
    (hk : k < n) (hdone : (List.range k).forM f m = .ok () m') (hstop : f k m' = .error e m'') :
    (List.range n).forM f m = .error e m'' := by
  induction n with
  | zero => omega
  | succ n ih =>
    rw [forM_range_succ]
    rcases Nat.lt_succ_iff_lt_or_eq.1 hk with hlt | rfl
    · rw [ih hlt]
    · rw [hdone]
      exact hstop

/-! ## One register -/

theorem sum_toNat (h : base.toNat + n < 65536) :
    ∃ addr : Word, base.sum n = .ok addr ∧ addr.toNat = base.toNat + n := by
  refine ⟨_, Word.sum_eq_ok h, ?_⟩
  rw [BitVec.toNat_ofNat, Nat.mod_eq_of_lt (by simpa using h)]

theorem storeRegister_run (hn : n < 16) (h : base.toNat + n < 4096) :
    storeRegister base n m = .ok ()
      { m with memory := m.memory.store (base.toNat + n) [m.registers.byte n] } := by
  have hlt : base.toNat + n < 65536 := by omega
  obtain ⟨addr, hsum, haddr⟩ := sum_toNat hlt
  have hset : m.memory.set addr.toNat (m.registers.byte n) =
      .ok (m.memory.store (base.toNat + n) [m.registers.byte n]) := by
    rw [Memory.set, haddr]
    exact Memory.write_eq_store (by simp only [List.length_singleton]; omega)
  simp only [storeRegister, bind_run, hsum, check_ok, readRegister_run hn]
  exact modifyMemory_run hset

theorem storeRegister_fault (hn : n < 16) (h : 4096 ≤ base.toNat + n)
    (hsum : base.toNat + n < 65536) :
    storeRegister base n m = .error (.fault (.addressRange (base.toNat + n) 1)) m := by
  obtain ⟨addr, hsum, haddr⟩ := sum_toNat hsum
  have hset : m.memory.set addr.toNat (m.registers.byte n) =
      .error (.addressRange (base.toNat + n) 1) := by
    rw [Memory.set, haddr]
    exact Memory.write_eq_error (by simp only [List.length_singleton]; omega)
  simp only [storeRegister, bind_run, hsum, check_ok, readRegister_run hn]
  exact modifyMemory_fault hset

theorem loadRegister_run (hn : n < 16) (h : base.toNat + n < 4096) :
    loadRegister base n m = .ok ()
      { m with registers := m.registers.put n (m.memory.byte (base.toNat + n)).toNat } := by
  have hlt : base.toNat + n < 65536 := by omega
  obtain ⟨addr, hsum, haddr⟩ := sum_toNat hlt
  have hget : m.memory.get addr.toNat = .ok (m.memory.byte (base.toNat + n)) := by
    rw [haddr, Memory.get_eq_byte h]
  simp only [loadRegister, bind_run, hsum, check_ok, get_run, hget, writeRegister_run hn]

theorem loadRegister_fault (h : 4096 ≤ base.toNat + n) (hsum : base.toNat + n < 65536) :
    loadRegister base n m = .error (.fault (.addressRange (base.toNat + n) 1)) m := by
  obtain ⟨addr, hsum, haddr⟩ := sum_toNat hsum
  have hget : m.memory.get addr.toNat = .error (.addressRange (base.toNat + n) 1) := by
    rw [haddr]
    exact dif_neg (by omega)
  simp only [loadRegister, bind_run, hsum, check_ok, get_run, hget, check_error]

/-! ## A block of registers -/

/-- Memory after the first `n` registers are stored from `base` on. -/
theorem storeRegisters_run (hn : n ≤ 16) (h : n = 0 ∨ base.toNat + n ≤ 4096) :
    (List.range n).forM (storeRegister base) m = .ok ()
      { m with memory := m.memory.store base.toNat (m.registers.block n) } := by
  induction n with
  | zero => rfl
  | succ n ih =>
    have hn16 : n < 16 := hn
    have hin : base.toNat + n < 4096 := by omega
    rw [forM_range_succ, ih (Nat.le_of_lt hn16) (.inr (Nat.le_of_lt hin))]
    simp only [storeRegister_run hn16 hin]
    rw [Registers.block_succ, Memory.store_append, Registers.length_block]

/-- The registers after the first `n` of them are loaded from `base` on. -/
theorem loadRegisters_run (hn : n ≤ 16) (h : n = 0 ∨ base.toNat + n ≤ 4096) :
    (List.range n).forM (loadRegister base) m = .ok ()
      { m with registers := m.registers.load (m.memory.block base.toNat n) } := by
  induction n with
  | zero =>
    have hnone : m.memory.block base.toNat 0 = [] := rfl
    rw [hnone, Registers.load_nil]
    rfl
  | succ n ih =>
    have hn16 : n < 16 := hn
    have hin : base.toNat + n < 4096 := by omega
    rw [forM_range_succ, ih (Nat.le_of_lt hn16) (.inr (Nat.le_of_lt hin))]
    simp only [loadRegister_run hn16 hin]
    rw [Memory.block_succ, Registers.load_append, Memory.length_block]

/-- A transfer of `n` bytes that leaves the memory stops where the bytes from its base to the end of memory
are used up, at once if there are none. -/
theorem storeRegisters_fault (hn : n ≤ 16) (hpos : 0 < n) (hout : 4096 < base.toNat + n) :
    (List.range n).forM (storeRegister base) m =
      .error (.fault (.addressRange (base.toNat + Memory.room base.toNat) 1))
        { m with memory := m.memory.store base.toNat (m.registers.block (Memory.room base.toNat)) } := by
  have hlt : base.toNat < 65536 := base.isLt
  have hroom : Memory.room base.toNat = 4096 - base.toNat := rfl
  have hk : Memory.room base.toNat < 16 := by omega
  exact forM_range_error (by omega) (storeRegisters_run (Nat.le_of_lt hk) (by omega))
    (storeRegister_fault hk (by omega) (by omega))

theorem loadRegisters_fault (hn : n ≤ 16) (hpos : 0 < n) (hout : 4096 < base.toNat + n) :
    (List.range n).forM (loadRegister base) m =
      .error (.fault (.addressRange (base.toNat + Memory.room base.toNat) 1))
        { m with
          registers := m.registers.load (m.memory.block base.toNat (Memory.room base.toNat)) } := by
  have hlt : base.toNat < 65536 := base.isLt
  have hroom : Memory.room base.toNat = 4096 - base.toNat := rfl
  have hk : Memory.room base.toNat ≤ 16 := by omega
  exact forM_range_error (by omega) (loadRegisters_run hk (by omega))
    (loadRegister_fault (by omega) (by omega))

end Chip8.Machine
