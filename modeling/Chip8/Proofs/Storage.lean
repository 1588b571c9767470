import Chip8.Proofs.Footprint

/-!
# Proofs/Storage — registers that are stored and loaded again

Storing puts the first general registers into memory at the index, loading takes as many bytes from there, and
whoever loads fewer than were stored has the first of them. In one dialect both move the index past the bytes
they moved, so transfers in a row use one piece of memory after the other. `Transfers` are such rows, with
anything in between that leaves the index and the bytes that count. What `Stored` rows leave in memory is all
their blocks, one behind the other (`Stored.memory`), and `Loaded` rows from the same start read these back in
order (`Loaded.read`).
-/

namespace Chip8

theorem Registers.index_pass {r : Registers} {d : Dialect} {k : Nat} (h : r.index.toNat + k < 65536) :
    (r.pass d k).index = if d.advancesIndex then .ofNat (r.index.toNat + k) else r.index := by
  have hsum : (Register.ofInt (r.index.toNat + k) : Register 16) = .ofNat (r.index.toNat + k) :=
    Register.ofInt_eq_ofNat h
  rw [pass, ← hsum]
  split <;> rfl

/-- Blocks that lie in memory one behind the other, and are still there where they are read. -/
theorem Memory.block_member {m m' : Memory} {start : Nat} {before after : List (List Byte)} {block : List Byte}
    (lie : m.block start (before ++ block :: after).flatten.length = (before ++ block :: after).flatten)
    (kept : ∀ a, start + before.flatten.length ≤ a → a < start + (before ++ block :: after).flatten.length →
      m'.byte a = m.byte a) : m'.block (start + before.flatten.length) block.length = block := by
  rw [List.flatten_append, List.flatten_cons] at lie kept
  rw [block_eq_append, block_eq_append] at lie
  refine (block_congr fun a hle hlt => kept a hle ?_).trans lie.2.1
  rw [List.length_append, List.length_append]
  omega

namespace Machine

variable {κ : Type} {m m' n n' : Machine κ} {x i : Nat}

/-! ## One transfer -/

/-- The machine after registers 0 to `x` are stored. -/
def storing (m : Machine κ) (x : Nat) : Machine κ := m.after (.storeRegisters x) .silence m.keypad

/-- The machine after registers 0 to `x` are loaded. -/
def loading (m : Machine κ) (x : Nat) : Machine κ := m.after (.loadRegisters x) .silence m.keypad

/-- The index after a transfer of `k` registers. -/
def indexPast (m : Machine κ) (k : Nat) : Register 16 :=
  if m.dialect.advancesIndex then .ofNat (m.registers.index.toNat + k) else m.registers.index

theorem index_storing (fits : m.registers.index.toNat + (x + 1) ≤ 4096) :
    (m.storing x).registers.index = m.indexPast (x + 1) :=
  Registers.index_pass (Nat.lt_of_le_of_lt fits (by decide))

theorem index_loading (fits : m.registers.index.toNat + (x + 1) ≤ 4096) :
    (m.loading x).registers.index = m.indexPast (x + 1) := by
  have hpass := Registers.index_pass (d := m.dialect) (k := x + 1)
    (r := m.registers.load (m.memory.block m.registers.index.toNat (x + 1)))
  rw [Registers.index_load] at hpass
  exact hpass (Nat.lt_of_le_of_lt fits (by decide))

theorem toNat_indexPast {k : Nat} (advances : m.dialect.advancesIndex = true)
    (fits : m.registers.index.toNat + k ≤ 4096) :
    (m.indexPast k).toNat = m.registers.index.toNat + k := by
  rw [indexPast, if_pos advances, Register.toNat_ofNat]
  exact Nat.mod_eq_of_lt (Nat.lt_of_le_of_lt fits (by decide))

theorem v_storing : (m.storing x).registers.v = m.registers.v := Registers.v_pass

theorem byte_storing_of_lt {a : Nat} (h : a < m.registers.index.toNat ∨ m.registers.index.toNat + x < a) :
    (m.storing x).memory.byte a = m.memory.byte a := by
  refine Memory.byte_store_of_not_mem ?_
  rw [Registers.length_block]
  omega

theorem byte_storing (fits : m.registers.index.toNat + (x + 1) ≤ 4096) (hi : i ≤ x) :
    (m.storing x).memory.byte (m.registers.index.toNat + i) = m.registers.byte i := by
  have hlen : i < (m.registers.block (x + 1)).length := by rwa [Registers.length_block, Nat.lt_succ_iff]
  have hin : m.registers.index.toNat + (m.registers.block (x + 1)).length ≤ 4096 := by
    rwa [Registers.length_block]
  refine (Memory.byte_store hin _).trans ?_
  rw [if_pos ⟨Nat.le_add_right _ i, Nat.add_lt_add_left hlen _⟩, Nat.add_sub_cancel_left,
    List.getD_eq_getElem?_getD, List.getElem?_eq_getElem hlen, Option.getD_some, Registers.getElem_block]

theorem memory_loading : (m.loading x).memory = m.memory := rfl

theorem byte_loading (hi : i < 16) (hle : i ≤ x) :
    (m.loading x).registers.byte i = m.memory.byte (m.registers.index.toNat + i) := by
  have hlen : i < (m.memory.block m.registers.index.toNat (x + 1)).length := by
    rwa [Memory.length_block, Nat.lt_succ_iff]
  rw [← Memory.getElem_block hlen, ← Registers.byte_load m.registers hi hlen]
  exact Registers.byte_pass

theorem getElem_loading_of_lt (hi : i < 16) (hlt : x < i) :
    (m.loading x).registers.v[i] = m.registers.v[i] :=
  getElem_registersAfter (i := .loadRegisters x) hi (Nat.not_le_of_lt hlt) .silence

/-- A store leaves the registers in memory. -/
theorem block_storing (fits : m.registers.index.toNat + (x + 1) ≤ 4096) :
    (m.storing x).memory.block m.registers.index.toNat (x + 1) = (m.storing x).registers.block (x + 1) :=
  List.map_congr_left fun i hi => by
    rw [byte_storing fits (Nat.lt_succ_iff.1 (List.mem_range.1 hi)), Registers.byte, Registers.byte, v_storing]

/-- A load leaves the bytes of memory in the registers. -/
theorem block_loading (hx : x < 16) :
    (m.loading x).registers.block (x + 1) = m.memory.block m.registers.index.toNat (x + 1) :=
  List.map_congr_left fun i hi => by
    have hle : i ≤ x := Nat.lt_succ_iff.1 (List.mem_range.1 hi)
    exact byte_loading (Nat.lt_of_le_of_lt hle hx) hle

/-! ## Execution -/

variable [Keypad κ]

/-- An instruction that asks nothing has taken effect if it completes. -/
theorem execute_inv {i : Instruction} {flow : Flow} (hi : i.InRange) (silent : m.question i = pure .silence)
    (run : execute i m = .ok flow m') : m.Fits i ∧ m' = m.after i .silence m.keypad := by
  have hout := executes (m := m) hi
  rw [run] at hout
  cases hout with
  | done fits accepted answered =>
    rw [silent] at answered
    obtain ⟨rfl, rfl⟩ := EStateM.Result.ok.inj answered
    exact ⟨fits, rfl⟩

theorem execute_storeRegisters (hx : x < 16) (fits : m.registers.index.toNat + (x + 1) ≤ 4096) :
    execute (.storeRegisters x) m = .ok .next (m.storing x) :=
  execute_accepted (i := .storeRegisters x) hx fits rfl

theorem execute_loadRegisters (hx : x < 16) (fits : m.registers.index.toNat + (x + 1) ≤ 4096) :
    execute (.loadRegisters x) m = .ok .next (m.loading x) :=
  execute_accepted (i := .loadRegisters x) hx fits rfl

theorem storing_of_ok {flow : Flow} (hx : x < 16) (run : execute (.storeRegisters x) m = .ok flow m') :
    m.registers.index.toNat + (x + 1) ≤ 4096 ∧ m' = m.storing x :=
  execute_inv (i := .storeRegisters x) hx rfl run

theorem loading_of_ok {flow : Flow} (hx : x < 16) (run : execute (.loadRegisters x) m = .ok flow m') :
    m.registers.index.toNat + (x + 1) ≤ 4096 ∧ m' = m.loading x :=
  execute_inv (i := .loadRegisters x) hx rfl run

/-! ## Transfers in a row -/

/-- Transfers one after the other, and between them whatever leaves the index, the dialect and the bytes that
count while the index is where it is, such as the program counter that moves on, or other instructions. The list
has the registers that each transfer moved. -/
inductive Transfers (move : Nat → Instruction) (Counts : Nat → Nat → Prop) (m : Machine κ) :
    List (List Byte) → Machine κ → Prop
  | start : Transfers move Counts m [] m
  | transfer {blocks : List (List Byte)} {m₁ m₂ : Machine κ} {x : Nat}
      (before : Transfers move Counts m blocks m₁) (hx : x < 16) (done : execute (move x) m₁ = .ok .next m₂) :
      Transfers move Counts m (blocks ++ [m₂.registers.block (x + 1)]) m₂
  | meanwhile {blocks : List (List Byte)} {m₁ m₂ : Machine κ} (before : Transfers move Counts m blocks m₁)
      (index : m₂.registers.index.toNat = m₁.registers.index.toNat) (dialect : m₂.dialect = m₁.dialect)
      (kept : ∀ a, Counts m₁.registers.index.toNat a → m₂.memory.byte a = m₁.memory.byte a) :
      Transfers move Counts m blocks m₂

/-- Registers were stored one block after the other, and what was stored has been left alone. -/
def Stored (m : Machine κ) : List (List Byte) → Machine κ → Prop :=
  Transfers .storeRegisters (fun index a => m.registers.index.toNat ≤ a ∧ a < index) m

/-- Registers were loaded one block after the other, and the bytes below `stop` that are yet to come have been
left alone. -/
def Loaded (stop : Nat) (n : Machine κ) : List (List Byte) → Machine κ → Prop :=
  Transfers .loadRegisters (fun index a => index ≤ a ∧ a < stop) n

/-- By induction on the row: each block goes behind those before it. -/
theorem Stored.memory {blocks : List (List Byte)} (h : m.Stored blocks m')
    (advances : m.dialect.advancesIndex = true) :
    m'.dialect = m.dialect ∧ m'.registers.index.toNat = m.registers.index.toNat + blocks.flatten.length ∧
      (blocks ≠ [] → m'.registers.index.toNat ≤ 4096) ∧
      m'.memory.block m.registers.index.toNat blocks.flatten.length = blocks.flatten := by
  induction h with
  | start => exact ⟨rfl, rfl, fun hne => absurd rfl hne, rfl⟩
  | @transfer blocks m₁ m₂ x before hx done ih =>
    obtain ⟨hdialect, hindex, -, hblocks⟩ := ih
    obtain ⟨fits, rfl⟩ := storing_of_ok hx done
    have hnext := (congrArg Register.toNat (index_storing fits)).trans
      (toNat_indexPast (hdialect ▸ advances) fits)
    rw [List.flatten_concat, Memory.block_eq_append, List.length_append, Registers.length_block]
    refine ⟨hdialect, hnext.trans (by omega), fun _ => Nat.le_trans (Nat.le_of_eq hnext) fits, ?_, ?_⟩
    · rw [← hblocks, Memory.length_block]
      exact Memory.block_congr fun a _ hlt => byte_storing_of_lt (.inl (hindex ▸ hlt))
    · rw [← hindex]
      exact block_storing fits
  | @meanwhile blocks m₁ m₂ before index dialect kept ih =>
    obtain ⟨hdialect, hindex, hin, hblocks⟩ := ih
    refine ⟨dialect.trans hdialect, index.trans hindex, fun hne => index ▸ hin hne, Eq.trans ?_ hblocks⟩
    exact Memory.block_congr fun a hle hlt => kept a ⟨hle, hindex ▸ hlt⟩

/-- By induction on the row: what is loaded is what lies there, as long as the sizes are the same. -/
theorem Loaded.read {stop : Nat} {blocks read : List (List Byte)} (h : n.Loaded stop read n')
    (advances : n.dialect.advancesIndex = true)
    (hstop : n.registers.index.toNat + blocks.flatten.length = stop)
    (lie : n.memory.block n.registers.index.toNat blocks.flatten.length = blocks.flatten)
    (sizes : read.map List.length <+: blocks.map List.length) :
    read <+: blocks ∧ n'.dialect = n.dialect ∧
      n'.registers.index.toNat = n.registers.index.toNat + read.flatten.length ∧
      ∀ a, n'.registers.index.toNat ≤ a → a < stop → n'.memory.byte a = n.memory.byte a := by
  induction h with
  | start => exact ⟨List.nil_prefix, rfl, rfl, fun _ _ _ => rfl⟩
  | @transfer read m₁ m₂ x before hx done ih =>
    rw [List.map_append] at sizes
    obtain ⟨⟨rest, rfl⟩, hdialect, hindex, hbytes⟩ := ih ((List.prefix_append _ _).trans sizes)
    obtain ⟨fits, rfl⟩ := loading_of_ok hx done
    -- the next block is as long as what was just loaded
    rw [List.map_append, List.prefix_append_right_inj] at sizes
    obtain ⟨tail, htail⟩ := sizes
    obtain ⟨block, rest, rfl, hlen, -⟩ := List.map_eq_cons_iff.1 htail.symm
    rw [Registers.length_block] at hlen
    have hblock := Memory.block_member lie fun a hle hlt => hbytes a (hindex ▸ hle) (hstop ▸ hlt)
    have hloaded : (m₁.loading x).registers.block (x + 1) = block := by
      rw [block_loading hx, hindex, ← hlen, hblock]
    have hnext := (congrArg Register.toNat (index_loading fits)).trans
      (toNat_indexPast (hdialect ▸ advances) fits)
    refine ⟨?_, hdialect, ?_, fun a hle hlt => hbytes a (by omega) hlt⟩
    · rw [hloaded]
      exact ⟨rest, by rw [List.append_assoc, List.singleton_append]⟩
    · rw [List.flatten_concat, List.length_append, Registers.length_block]
      exact hnext.trans (by omega)
  | @meanwhile read m₁ m₂ before index dialect kept ih =>
    obtain ⟨hread, hdialect, hindex, hbytes⟩ := ih sizes
    refine ⟨hread, dialect.trans hdialect, index.trans hindex, fun a hle hlt => ?_⟩
    rw [index] at hle
    exact (kept a ⟨hle, hlt⟩).trans (hbytes a hle hlt)

/-- **Registers that are stored are loaded again as they were.** In either dialect a store of registers 0 to `x`
completes if its bytes lie in memory, and changes these bytes and perhaps the index. When the index is back and the
bytes are still there, a load of registers 0 to `y`, of no more than were stored, gives these the numbers that were
stored, whatever was in them meanwhile, and leaves the other registers and memory. In the dialect that moves
the index, stores in a row leave their blocks one behind the other, and loads in a row from the same start, of the
same sizes, complete and give the same blocks in the same order. -/
theorem transfers_round_trip (m : Machine κ) :
    (∀ x < 16, m.registers.index.toNat + x ≤ 4095 →
      ∃ m', execute (.storeRegisters x) m = .ok .next m' ∧ m'.registers.v = m.registers.v ∧
        (∀ a, a < m.registers.index.toNat ∨ m.registers.index.toNat + x < a →
          m'.memory.byte a = m.memory.byte a) ∧
        m'.registers.index = m.indexPast (x + 1) ∧
        ∀ n : Machine κ, n.registers.index.toNat = m.registers.index.toNat →
          (∀ a, m.registers.index.toNat ≤ a → a ≤ m.registers.index.toNat + x →
            n.memory.byte a = m'.memory.byte a) →
          ∀ y ≤ x, ∃ n', execute (.loadRegisters y) n = .ok .next n' ∧ n'.memory = n.memory ∧
            (∀ i ≤ y, n'.registers.byte i = m.registers.byte i) ∧
            (∀ i (h : i < 16), y < i → n'.registers.v[i] = n.registers.v[i]) ∧
            n'.registers.index = n.indexPast (y + 1)) ∧
    (m.dialect.advancesIndex = true → ∀ blocks m', m.Stored blocks m' →
      m'.registers.index.toNat = m.registers.index.toNat + blocks.flatten.length ∧
      (∀ before block after, blocks = before ++ block :: after →
        m'.memory.block (m.registers.index.toNat + before.flatten.length) block.length = block) ∧
      ∀ (n : Machine κ) read n', n.registers.index.toNat = m.registers.index.toNat → n.dialect = m.dialect →
        (∀ a, m.registers.index.toNat ≤ a → a < m'.registers.index.toNat →
          n.memory.byte a = m'.memory.byte a) →
        n.Loaded m'.registers.index.toNat read n' → read.map List.length <+: blocks.map List.length →
          read <+: blocks ∧
          ∀ x < 16, ∀ block after, blocks = read ++ block :: after → block.length = x + 1 →
            ∃ n'', execute (.loadRegisters x) n' = .ok .next n'' ∧
              n''.registers.block (x + 1) = block) := by
  constructor
  · intro x hx hin
    have fits := Nat.succ_le_succ hin
    refine ⟨_, execute_storeRegisters hx fits, v_storing, fun a => byte_storing_of_lt, index_storing fits, ?_⟩
    intro n index bytes y hy
    have hfits : n.registers.index.toNat + (y + 1) ≤ 4096 := by omega
    have hy16 : y < 16 := Nat.lt_of_le_of_lt hy hx
    refine ⟨_, execute_loadRegisters hy16 hfits, memory_loading, fun i hi => ?_,
      fun i hi hlt => getElem_loading_of_lt hi hlt, index_loading hfits⟩
    have hix : i ≤ x := Nat.le_trans hi hy
    rw [byte_loading (Nat.lt_of_le_of_lt hi hy16) hi, index,
      bytes _ (Nat.le_add_right _ i) (Nat.add_le_add_left hix _), byte_storing fits hix]
  · intro advances blocks m' stored
    obtain ⟨-, hindex, hin, lie⟩ := stored.memory advances
    refine ⟨hindex, ?_, ?_⟩
    · rintro before block after rfl
      exact Memory.block_member lie fun _ _ _ => rfl
    · intro n read n' index dialect bytes loaded sizes
      rw [hindex] at bytes
      have hlie : n.memory.block n.registers.index.toNat blocks.flatten.length = blocks.flatten := by
        rw [index, ← lie, Memory.length_block]
        exact Memory.block_congr bytes
      have hread := loaded.read (dialect ▸ advances) (by rw [hindex, index]) hlie sizes
      refine ⟨hread.1, ?_⟩
      rintro x hx block after rfl hlen
      obtain ⟨-, -, hnext, hbytes⟩ := hread
      have hlast : (read ++ block :: after).flatten.length =
          read.flatten.length + (block.length + after.flatten.length) := by
        rw [List.flatten_append, List.flatten_cons, List.length_append, List.length_append]
      have hend := hin (List.append_ne_nil_of_right_ne_nil read (List.cons_ne_nil block after))
      have hblock := Memory.block_member hlie fun a hle hlt => hbytes a (hnext ▸ hle) (by omega)
      refine ⟨_, execute_loadRegisters hx (by omega), ?_⟩
      rw [block_loading hx, hnext, ← hlen, hblock]

/-- Two registers and then one are stored. From the start of the first store, one register and then two are
loaded. -/
theorem transfers_round_trip_rows :
    let m : Machine ScriptedKeypad := { Machine.new (.holding []) { advancesIndex := true } (.ofSeed 0) with
      registers := { (powerOn.put 0 7).put 1 8 with index := .ofNat 0x300 } }
    let back (n : Machine ScriptedKeypad) := { n with registers := { powerOn with index := .ofNat 0x300 } }
    let m₁ := m.storing 1
    let m₂ := m₁.storing 0
    (∃ n, execute (.loadRegisters 0) (back m₁) = .ok .next n ∧ n.registers.byte 0 = 7) ∧
      m.Stored [[7, 8], [7]] m₂ ∧ m₂.memory.block 0x302 1 = [7] ∧
      ∃ n, execute (.loadRegisters 1) (back m₂) = .ok .next n ∧ n.registers.block 2 = [7, 8] := by
  intro m back m₁ m₂
  have hrun₁ : execute (.storeRegisters 1) m = .ok .next m₁ := execute_storeRegisters (by decide) (by decide)
  have hrun₂ : execute (.storeRegisters 0) m₁ = .ok .next m₂ := execute_storeRegisters (by decide) (by decide)
  have hstored : m.Stored ([m₁.registers.block 2] ++ [m₂.registers.block 1]) m₂ :=
    .transfer (.transfer .start (by decide) hrun₁) (by decide) hrun₂
  have hblocks : [m₁.registers.block 2] ++ [m₂.registers.block 1] = [[7, 8], [7]] := by decide
  rw [hblocks] at hstored
  obtain ⟨hone, hrows⟩ := transfers_round_trip m
  obtain ⟨m', hrun, -, -, -, hback⟩ := hone 1 (by decide) (by decide)
  obtain ⟨-, rfl⟩ := EStateM.Result.ok.inj (hrun.symm.trans hrun₁)
  obtain ⟨n₁, hload₁, -, hbytes, -⟩ := hback (back m₁) rfl (fun _ _ _ => rfl) 0 (by decide)
  obtain ⟨-, hplace, hread⟩ := hrows rfl _ _ hstored
  obtain ⟨-, hnext⟩ := hread (back m₂) [] (back m₂) rfl rfl (fun _ _ _ => rfl) .start List.nil_prefix
  obtain ⟨n₂, hload₂, hblock⟩ := hnext 1 (by decide) [7, 8] [[7]] rfl rfl
  exact ⟨⟨n₁, hload₁, hbytes 0 (by decide)⟩, hstored, hplace [[7, 8]] [7] [] rfl, n₂, hload₂, hblock⟩

end Machine

end Chip8
