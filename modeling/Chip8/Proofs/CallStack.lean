import Chip8.Proofs.Failure

/-!
# Proofs/CallStack — the bytes of the call stack as a list of return addresses

A program that does not store over its stack runs as if the machine kept a list of the addresses its
pending calls return to. `CallStack.step` is what an instruction does to such a list, `CallStack.run` what
a run does, and `Machine.Represents` reads the list off the stack pointer and the bytes under it. One step
keeps the two in agreement (`Represents.step`), so every run does (`Run.represents`), and what holds of the
list holds of the machine: the depth at which it refuses a call, and that a balanced body leaves the stack
as it found it (`Balanced.run_eq`). The last theorem puts all of it together, for every run from a new or
reset machine.
-/

namespace Chip8

/-! ## The list of return addresses -/

namespace CallStack

/-- The return addresses after an instruction at `p`, oldest first. At most 86 are kept. -/
def step (calls : List Word) (p : Word) : Instruction → Except Error (List Word)
  | .call _ => if calls.length = 86 then .error (.stackOverflow p) else .ok (calls ++ [p + 2])
  | .ret => if calls = [] then .error (.stackUnderflow p) else .ok calls.dropLast
  | _ => .ok calls

/-- The return addresses after a run, given as the instructions that took effect and where they stood. -/
def run (calls : List Word) : List (Word × Instruction) → Except Error (List Word)
  | [] => .ok calls
  | (p, i) :: trace => step calls p i >>= fun calls => run calls trace

/-- A trace in which every call is matched by a later return. -/
inductive Balanced : List (Word × Instruction) → Prop
  | nil : Balanced []
  | single {p : Word} {i : Instruction} (hcall : ∀ nnn, i ≠ .call nnn) (hret : i ≠ .ret) :
      Balanced [(p, i)]
  | append {trace trace' : List (Word × Instruction)} (h : Balanced trace) (h' : Balanced trace') :
      Balanced (trace ++ trace')
  | nest {p q nnn : Word} {body : List (Word × Instruction)} (h : Balanced body) :
      Balanced ((p, .call nnn) :: body ++ [(q, .ret)])

variable {calls calls' : List Word} {trace trace' : List (Word × Instruction)} {p : Word} {i : Instruction}

theorem step_other (hcall : ∀ nnn, i ≠ .call nnn) (hret : i ≠ .ret) : step calls p i = .ok calls := by
  cases i with
  | call nnn => exact absurd rfl (hcall nnn)
  | ret => exact absurd rfl hret
  | _ => rfl

theorem step_call {nnn : Word} : step calls p (.call nnn) =
    if calls.length = 86 then .error (.stackOverflow p) else .ok (calls ++ [p + 2]) := rfl

theorem step_ret : step calls p .ret =
    if calls = [] then .error (.stackUnderflow p) else .ok calls.dropLast := rfl

theorem step_ret_append (calls : List Word) (a : Word) : step (calls ++ [a]) p .ret = .ok calls := by
  rw [step_ret, if_neg (List.append_ne_nil_of_right_ne_nil calls (List.cons_ne_nil a [])),
    List.dropLast_concat]

theorem step_call_inv {nnn : Word} (h : step calls p (.call nnn) = .ok calls') :
    calls' = calls ++ [p + 2] := by
  rw [step_call] at h
  split at h
  · exact nomatch h
  · exact (Except.ok.inj h).symm

/-- Only a call adds a return address, the one after it. -/
theorem mem_of_step {a : Word} (h : step calls p i = .ok calls') (ha : a ∈ calls') :
    a ∈ calls ∨ a = p + 2 := by
  cases i with
  | call nnn =>
    rw [step_call_inv h, List.mem_append] at ha
    exact ha.imp_right List.mem_singleton.1
  | ret =>
    rw [step_ret] at h
    split at h
    · exact nomatch h
    · obtain rfl := Except.ok.inj h
      exact .inl (List.dropLast_subset calls ha)
  | _ =>
    obtain rfl := Except.ok.inj h
    exact .inl ha

theorem run_append : run calls (trace ++ trace') = run calls trace >>= fun calls => run calls trace' := by
  induction trace generalizing calls with
  | nil => rfl
  | cons e trace ih =>
    obtain ⟨p, i⟩ := e
    rw [List.cons_append, run, run]
    cases step calls p i with
    | error e => rfl
    | ok calls => exact ih

theorem run_append_eq_ok (h : run calls trace = .ok calls') :
    run calls (trace ++ trace') = run calls' trace' := by
  rw [run_append, h, ok_bind]

/-- **A balanced trace leaves the return addresses as they were.** -/
theorem Balanced.run_eq (hb : Balanced trace) (h : run calls trace = .ok calls') : calls' = calls := by
  induction hb generalizing calls calls' with
  | nil => exact (Except.ok.inj h).symm
  | single hcall hret =>
    rw [run, step_other hcall hret] at h
    exact (Except.ok.inj h).symm
  | append _ _ ih ih' =>
    rw [run_append] at h
    obtain ⟨calls₁, hrun, h⟩ := bind_eq_ok h
    rw [ih' h, ih hrun]
  | nest _ ih =>
    rw [List.cons_append, run] at h
    obtain ⟨calls₁, hstep, h⟩ := bind_eq_ok h
    rw [step_call_inv hstep, run_append] at h
    obtain ⟨calls₂, hrun, h⟩ := bind_eq_ok h
    rw [ih hrun, run, step_ret_append, ok_bind, run] at h
    exact (Except.ok.inj h).symm

end CallStack

namespace Machine

variable {κ : Type} {m m' m₀ : Machine κ} {i : Instruction} {calls : List Word}

/-! ## The list in memory -/

/-- The stack pointer and the bytes under it hold this list of return addresses. -/
structure Represents (m : Machine κ) (calls : List Word) : Prop where
  sp : m.registers.sp = .ofNat (0x52 + 2 * calls.length)
  depth : calls.length ≤ 86
  entry : ∀ k (h : k < calls.length), m.memory.word (0x52 + 2 * k) = calls[k]

/-- The instruction stores nothing over the stack. -/
def SparesStack (m : Machine κ) (i : Instruction) : Prop :=
  ∀ a, m.Stores i a → ¬ (0x52 ≤ a ∧ a ≤ 0xfd)

namespace Represents

theorem toNat_sp (h : m.Represents calls) : m.registers.sp.toNat = 0x52 + 2 * calls.length := by
  have := h.depth
  rw [h.sp, Register.toNat_ofNat]
  exact Nat.mod_eq_of_lt (by simp only [Register.modulus]; omega)

theorem quiet_sp (h : m.Represents calls) : m.registers.sp.Quiet := by
  rw [h.sp]
  exact ⟨rfl, rfl⟩

/-- What represents a list is the stack pointer and the bytes of the stack. -/
theorem congr (h : m.Represents calls) (hsp : m'.registers.sp = m.registers.sp)
    (hbyte : ∀ a, 0x52 ≤ a → a ≤ 0xfd → m'.memory.byte a = m.memory.byte a) : m'.Represents calls where
  sp := hsp.trans h.sp
  depth := h.depth
  entry k hk := by
    have := h.depth
    rw [Memory.word, hbyte _ (by omega) (by omega), hbyte _ (by omega) (by omega)]
    exact h.entry k hk

/-- The memory and stack pointer of a call that is accepted. -/
theorem pushed (h : m.Represents calls) (hroom : calls.length ≠ 86) (a : Word)
    (hsp : m'.registers.sp = .ofInt (m.registers.sp.toNat + 2))
    (hmem : m'.memory = m.memory.store m.registers.sp.toNat [a.high, a.low]) :
    m'.Represents (calls ++ [a]) := by
  have hdepth := h.depth
  have htop := h.toNat_sp
  have hlen : (calls ++ [a]).length = calls.length + 1 := List.length_append
  refine ⟨?_, by omega, fun k hk => ?_⟩
  · have hnext : ((0x52 + 2 * calls.length : Nat) : Int) + 2 = (0x52 + 2 * (calls.length + 1) : Nat) := by
      omega
    rw [hsp, htop, hlen, hnext]
    exact Register.ofInt_eq_ofNat (by simp only [Register.modulus]; omega)
  · rw [hmem, htop]
    rcases Nat.lt_or_ge k calls.length with hlt | hge
    · rw [Memory.word_store_of_not_mem (by simp only [List.length_cons]; omega)
        (by simp only [List.length_cons]; omega), List.getElem_append_left hlt]
      exact h.entry k hlt
    · obtain rfl : k = calls.length := by omega
      rw [Memory.word_store a (by omega), List.getElem_append_right hge]
      simp only [Nat.sub_self, List.getElem_cons_zero]

/-- The memory and stack pointer of a return that is accepted. -/
theorem popped {a : Word} (h : m.Represents (calls ++ [a]))
    (hsp : m'.registers.sp = .ofInt (m.registers.sp.toNat - 2)) (hmem : m'.memory = m.memory) :
    m'.Represents calls := by
  have hdepth := h.depth
  have htop := h.toNat_sp
  have hlen : (calls ++ [a]).length = calls.length + 1 := List.length_append
  refine ⟨?_, by omega, fun k hk => ?_⟩
  · have hback : ((0x52 + 2 * (calls.length + 1) : Nat) : Int) - 2 = (0x52 + 2 * calls.length : Nat) := by
      omega
    rw [hsp, htop, hlen, hback]
    exact Register.ofInt_eq_ofNat (by simp only [Register.modulus]; omega)
  · rw [hmem, h.entry k (by omega), List.getElem_append_left hk]

theorem top {a : Word} (h : m.Represents (calls ++ [a])) :
    m.memory.word (m.registers.sp.toNat - 2) = a := by
  have hlen : (calls ++ [a]).length = calls.length + 1 := List.length_append
  have hentry := h.entry calls.length (by omega)
  rw [List.getElem_append_right (Nat.le_refl _)] at hentry
  simp only [Nat.sub_self, List.getElem_cons_zero] at hentry
  have haddr : 0x52 + 2 * (calls.length + 1) - 2 = 0x52 + 2 * calls.length := by omega
  rw [h.toNat_sp, hlen, haddr, hentry]

/-- A return that is accepted goes to one of the return addresses. -/
theorem top_mem (h : m.Represents calls) (hok : m.refusal? .ret = none) :
    m.memory.word (m.registers.sp.toNat - 2) ∈ calls := by
  have htop := h.toNat_sp
  have hsp := refusal?_ret_eq_none.1 hok
  have hne : calls ≠ [] := by
    rintro rfl
    exact hsp (htop ▸ by decide)
  rw [← List.dropLast_concat_getLast hne] at h
  rw [h.top]
  exact List.getLast_mem hne

/-- An instruction that neither calls nor returns leaves the stack alone, unless it stores over it. -/
theorem other (h : m.Represents calls) (hcall : ∀ nnn, i ≠ .call nnn) (hret : i ≠ .ret)
    (hspares : m.SparesStack i) (answer : KeyAnswer) (keypad : κ) :
    ((m.after i answer keypad).proceed i.flow).Represents calls := by
  refine h.congr ?_ ?_
  · rw [sp_proceed]
    exact sp_registersAfter hcall hret answer
  · intro a hlow hhigh
    rw [memory_proceed]
    exact byte_memoryAfter hcall fun hstores => hspares a hstores ⟨hlow, hhigh⟩

/-! ### One step -/

variable [Keypad κ] {nnn : Word}

theorem call_full (h : m.Represents calls) (hpc : m.registers.pc.toNat ≤ 4094)
    (hi : m.instruction? = some (.call nnn)) (hfull : calls.length = 86) :
    Machine.step m = .error (.error (.stackOverflow m.registers.pc.value)) m := by
  have htop := h.toNat_sp
  have hno : m.refusal? (.call nnn) = some (.stackOverflow m.registers.pc.value) := by
    rw [refusal?_call]
    exact if_pos (by omega)
  have hfits : m.registers.pc.toNat + 2 < 65536 := by omega
  rw [step_refused hpc hi hfits hno, refused_eq h.quiet_sp]

theorem call (h : m.Represents calls) (hpc : m.registers.pc.toNat ≤ 4094)
    (hi : m.instruction? = some (.call nnn)) (hroom : calls.length ≠ 86) :
    ∃ m', Machine.step m = .ok (.call nnn) m' ∧ m'.registers.pc.value = nnn ∧
      m'.Represents (calls ++ [m.registers.pc.value + 2]) := by
  have hdepth := h.depth
  have htop := h.toNat_sp
  have hok : m.refusal? (.call nnn) = none := refusal?_call_eq_none.2 (by omega)
  have hback : BitVec.ofNat 16 (m.registers.pc.toNat + 2) = m.registers.pc.value + 2 := by
    rw [BitVec.ofNat_add, ← Register.toNat_value, BitVec.ofNat_toNat, BitVec.setWidth_eq]
    rfl
  have hfits : m.Fits (.call nnn) := Nat.lt_of_le_of_lt (Nat.add_le_add_right hpc 2) (by decide)
  have hrun := step_done (a := .silence) (k := m.keypad) hpc hi hfits hok rfl
  refine ⟨_, hrun, Registers.value_pc_goto, h.pushed hroom _ rfl ?_⟩
  rw [← hback]
  rfl

theorem ret_empty (h : m.Represents []) (hpc : m.registers.pc.toNat ≤ 4094)
    (hi : m.instruction? = some .ret) :
    Machine.step m = .error (.error (.stackUnderflow m.registers.pc.value)) m := by
  have htop := h.toNat_sp
  have hno : m.refusal? .ret = some (.stackUnderflow m.registers.pc.value) := by
    rw [refusal?_ret]
    exact if_pos (by rw [htop]; decide)
  rw [step_refused hpc hi trivial hno, refused_eq h.quiet_sp]

theorem ret {a : Word} (h : m.Represents (calls ++ [a])) (hpc : m.registers.pc.toNat ≤ 4094)
    (hi : m.instruction? = some .ret) :
    ∃ m', Machine.step m = .ok .ret m' ∧ m'.registers.pc.value = a ∧ m'.Represents calls := by
  have htop := h.toNat_sp
  have hlen : (calls ++ [a]).length = calls.length + 1 := List.length_append
  have hok : m.refusal? .ret = none := refusal?_ret_eq_none.2 (by omega)
  have hrun := step_done (a := .silence) (k := m.keypad) hpc hi trivial hok rfl
  refine ⟨_, hrun, ?_, h.popped rfl rfl⟩
  exact Registers.value_pc_goto.trans h.top

/-- **One step of the machine is one step on the list**, unless it stores over the stack. -/
theorem step (h : m.Represents calls) (hspares : m.SparesStack i) (hrun : Machine.step m = .ok i m') :
    ∃ calls', CallStack.step calls m.registers.pc.value i = .ok calls' ∧ m'.Represents calls' := by
  have htop := h.toNat_sp
  have hout := steps_to (m := m)
  rw [hrun] at hout
  cases hout with
  | done hpc hi fits accepted answered =>
    by_cases hcall : ∃ nnn, i = .call nnn
    · obtain ⟨nnn, rfl⟩ := hcall
      have hsp := refusal?_call_eq_none.1 accepted
      have hroom : calls.length ≠ 86 := by omega
      obtain ⟨m'', hrun', -, hrep⟩ := h.call hpc hi hroom
      obtain ⟨-, rfl⟩ := EStateM.Result.ok.inj (hrun'.symm.trans hrun)
      exact ⟨_, by rw [CallStack.step_call, if_neg hroom], hrep⟩
    by_cases hret : i = .ret
    · subst hret
      have hsp := refusal?_ret_eq_none.1 accepted
      have hne : calls ≠ [] := by
        rintro rfl
        exact hsp (htop ▸ by decide)
      rw [← List.dropLast_concat_getLast hne] at h
      obtain ⟨m'', hrun', -, hrep⟩ := h.ret hpc hi
      obtain ⟨-, rfl⟩ := EStateM.Result.ok.inj (hrun'.symm.trans hrun)
      exact ⟨calls.dropLast, by rw [CallStack.step_ret, if_neg hne], hrep⟩
    · have hcall : ∀ nnn, i ≠ .call nnn := fun nnn hi => hcall ⟨nnn, hi⟩
      exact ⟨calls, CallStack.step_other hcall hret, h.other hcall hret hspares _ _⟩

end Represents

/-! ## Runs -/

/-- A machine as a run starts from it: new or reset, with programs loaded. -/
inductive Started : Machine κ → Prop
  | new (keypad : κ) (dialect : Dialect) (random : RandomStream) : Started (.new keypad dialect random)
  | reset (m : Machine κ) : Started m.reset
  | load {m m' : Machine κ} {program : List Byte} (started : Started m) (loaded : m.load program = .ok m') :
      Started m'

/-- Steps and ticks that store nothing over the stack, with the instructions that took effect and where they
stood. -/
inductive Run [Keypad κ] (m₀ : Machine κ) : List (Word × Instruction) → Machine κ → Prop
  | refl : Run m₀ [] m₀
  | step {trace : List (Word × Instruction)} {m m' : Machine κ} {i : Instruction} (before : Run m₀ trace m)
      (spares : m.SparesStack i) (done : step m = .ok i m') :
      Run m₀ (trace ++ [(m.registers.pc.value, i)]) m'
  | failed {trace : List (Word × Instruction)} {m m' : Machine κ} {e : Error} (before : Run m₀ trace m)
      (failed : step m = .error (.error e) m') : Run m₀ trace m'
  | tick {trace : List (Word × Instruction)} {m : Machine κ} (before : Run m₀ trace m) :
      Run m₀ trace m.tickTimers
  /-- The host's keypad changes by itself. -/
  | host {trace : List (Word × Instruction)} {m : Machine κ} (before : Run m₀ trace m) (keypad : κ) :
      Run m₀ trace { m with keypad }

theorem Represents.powerOn (h : m.registers = Machine.powerOn) : m.Represents [] where
  sp := by
    rw [h]
    rfl
  depth := Nat.zero_le 86
  entry k hk := absurd hk (Nat.not_lt_zero k)

/-- Only memory tells of the programs that were loaded. -/
theorem Started.registers (h : m.Started) : m.registers = Machine.powerOn := by
  induction h with
  | new keypad dialect random => rfl
  | reset m => rfl
  | load started loaded ih =>
    rw [load_inv loaded]
    exact ih

theorem Started.reachable [Keypad κ] (h : m.Started) : m.Reachable := by
  induction h with
  | new keypad dialect random => exact .new keypad dialect random
  | reset m => exact .new m.keypad m.dialect m.random
  | load started loaded ih => exact ih.next (.load loaded)

/-- A program is loaded above the stack. -/
theorem Started.represents (h : m.Started) : m.Represents [] := by
  induction h with
  | new keypad dialect random => exact .powerOn rfl
  | reset m => exact .powerOn rfl
  | load started loaded ih =>
    rw [load_inv loaded]
    refine ih.congr rfl fun a _ hhigh => Memory.byte_store_of_not_mem fun hin => ?_
    have hbase : Memory.programBase = 0x200 := rfl
    omega

section

variable [Keypad κ] {trace trace' : List (Word × Instruction)}

/-- **A run of the machine is a run on the list.** By induction on the run: failing steps, ticks and the
keypad leave the stack alone. -/
theorem Run.represents (hr : Run m₀ trace m) (h : m₀.Represents calls) :
    ∃ calls', CallStack.run calls trace = .ok calls' ∧ m.Represents calls' := by
  induction hr with
  | refl => exact ⟨calls, rfl, h⟩
  | step before spares done ih =>
    obtain ⟨calls₁, hrun, h₁⟩ := ih
    obtain ⟨calls', hstep, h'⟩ := h₁.step spares done
    refine ⟨calls', ?_, h'⟩
    rw [CallStack.run_append_eq_ok hrun, CallStack.run, hstep, ok_bind, CallStack.run]
  | failed before failed ih =>
    obtain ⟨calls₁, hrun, h₁⟩ := ih
    exact ⟨calls₁, hrun, by rw [step_error h₁.quiet_sp failed]; exact h₁.congr rfl fun _ _ _ => rfl⟩
  | tick before ih =>
    obtain ⟨calls₁, hrun, h₁⟩ := ih
    exact ⟨calls₁, hrun, h₁.congr rfl fun _ _ _ => rfl⟩
  | host before keypad ih =>
    obtain ⟨calls₁, hrun, h₁⟩ := ih
    exact ⟨calls₁, hrun, h₁.congr rfl fun _ _ _ => rfl⟩

/-- **The call stack in memory is a list of return addresses**, in every run from a new or reset machine
that does not store over it. The list is the run's own; a call adds the address after it and is refused
exactly at the 87th; a return takes the most recent address and is refused exactly when there is none. So a
call whose body is balanced is followed, after the return, by the instruction after it, with the stack
pointer as it was. -/
theorem callStack_refines (hs : m₀.Started) (hr : Run m₀ trace m) :
    ∃ calls, CallStack.run [] trace = .ok calls ∧ m.Represents calls ∧
      (m.registers.pc.toNat ≤ 4094 →
        (∀ nnn, m.instruction? = some (.call nnn) →
          (calls.length = 86 → step m = .error (.error (.stackOverflow m.registers.pc.value)) m) ∧
          (calls.length ≠ 86 → ∃ m', step m = .ok (.call nnn) m' ∧ m'.registers.pc.value = nnn ∧
            m'.Represents (calls ++ [m.registers.pc.value + 2]))) ∧
        (m.instruction? = some .ret →
          (calls = [] → step m = .error (.error (.stackUnderflow m.registers.pc.value)) m) ∧
          ∀ older a, calls = older ++ [a] → ∃ m', step m = .ok .ret m' ∧ m'.registers.pc.value = a ∧
            m'.Represents older)) ∧
      ∀ nnn m₁ body m₂ m₃, step m = .ok (.call nnn) m₁ → Run m₁ body m₂ → CallStack.Balanced body →
        step m₂ = .ok .ret m₃ →
          m₃.registers.pc.value = m.registers.pc.value + 2 ∧ m₃.registers.sp = m.registers.sp := by
  obtain ⟨calls, hrun, h⟩ := hr.represents hs.represents
  refine ⟨calls, hrun, h, fun hpc => ⟨?_, fun hi => ⟨?_, ?_⟩⟩, ?_⟩
  · intro nnn hi
    exact ⟨h.call_full hpc hi, h.call hpc hi⟩
  · rintro rfl
    exact h.ret_empty hpc hi
  · rintro older a rfl
    exact h.ret hpc hi
  · intro nnn m₁ body m₂ m₃ hcall hbody hbalanced hret
    have hspares : m.SparesStack (.call nnn) := fun _ hstores => False.elim hstores
    obtain ⟨calls₁, hpush, h₁⟩ := h.step hspares hcall
    obtain rfl := CallStack.step_call_inv hpush
    obtain ⟨calls₂, hrun₂, h₂⟩ := hbody.represents h₁
    obtain rfl := hbalanced.run_eq hrun₂
    obtain ⟨hpc₂, hi₂⟩ := step_fetched hret
    obtain ⟨m₃', hret', hpc₃, h₃⟩ := h₂.ret hpc₂ hi₂
    obtain ⟨-, rfl⟩ := EStateM.Result.ok.inj (hret'.symm.trans hret)
    exact ⟨hpc₃, h₃.sp.trans h.sp.symm⟩

end

/-- A call at the start of a program leaves the address after it on the stack. -/
theorem callStack_refines_call :
    let m : Machine ScriptedKeypad := .withOpcode 0x2300 (.holding [])
    ∃ m', step m = .ok (.call 0x300) m' ∧ m'.registers.pc.value = 0x300 ∧ m'.Represents [0x202] := by
  intro m
  have hstarted : m.Started := .load (.new (.holding []) {} (.ofSeed 0)) (load_withOpcode 0x2300 _)
  obtain ⟨calls, hrun, -, hsteps, -⟩ := callStack_refines hstarted .refl
  obtain rfl : [] = calls := Except.ok.inj hrun
  exact ((hsteps (by decide)).1 0x300 (instruction?_withOpcode _ _)).2 (by decide)

end Machine

end Chip8
