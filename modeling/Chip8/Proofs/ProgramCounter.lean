import Chip8.Proofs.History

/-!
# Proofs/ProgramCounter — where the program goes on, and how far it can get

`Machine.successor` says where the program counter stands after a step: at a target, past the next
instruction, or past one that is skipped. A step that completes writes that number (`pc_done`), so of two skips
on opposite conditions one is taken (`skips_opposite`). Returns read their target from memory, so a bound on the
program counter holds only together with one on the return addresses. `Disciplined` is the invariant that covers
both and `Disciplined.executed` the step that keeps it; `Aligned` is the same for evenness, as long as every jump
and call goes to an even address.
-/

namespace Chip8

/-- The instruction that skips on the opposite condition. -/
def Instruction.opposite? : Instruction → Option Instruction
  | .skipEqByte x nn => some (.skipNeByte x nn)
  | .skipNeByte x nn => some (.skipEqByte x nn)
  | .skipEq x y => some (.skipNe x y)
  | .skipNe x y => some (.skipEq x y)
  | .skipKeyDown x => some (.skipKeyUp x)
  | .skipKeyUp x => some (.skipKeyDown x)
  | _ => none

namespace Machine

variable {κ : Type} {m m' m₀ : Machine κ} {i j : Instruction} {calls : List Word}

/-! ## The next instruction -/

/-- Whether an instruction that heard `answer` skips the one that follows. -/
def skips (m : Machine κ) (answer : KeyAnswer) : Instruction → Bool
  | .skipEqByte x nn => m.registers.byte x == nn
  | .skipNeByte x nn => m.registers.byte x != nn
  | .skipEq x y => m.registers.byte x == m.registers.byte y
  | .skipNe x y => m.registers.byte x != m.registers.byte y
  | .skipKeyDown _ => answer.isDown
  | .skipKeyUp _ => !answer.isDown
  | _ => false

/-- The address at which the program goes on after an instruction that heard `answer`. -/
def successor (m : Machine κ) (answer : KeyAnswer) : Instruction → Nat
  | .ret => (m.memory.word (m.registers.sp.toNat - 2)).toNat
  | .jump nnn | .call nnn => nnn.toNat
  | .jumpOffset nnn => nnn.toNat + (m.registers.byte 0).toNat
  | i => if m.skips answer i then m.registers.pc.toNat + 4 else m.registers.pc.toNat + 2

/-- The address that a jump or a call names. -/
def target? (m : Machine κ) : Instruction → Option Nat
  | .jump nnn | .call nnn => some nnn.toNat
  | .jumpOffset nnn => some (nnn.toNat + (m.registers.byte 0).toNat)
  | _ => none

theorem pc_advance_skip {r : Registers} {c : Bool} (h : r.pc.toNat + 2 < 65536) :
    (r.skip c).advance.pc = .ofInt (if c then r.pc.toNat + 4 else r.pc.toNat + 2 : Nat) := by
  cases c with
  | false => rfl
  | true =>
    have hnext : r.advance.pc.toNat = r.pc.toNat + 2 :=
      Register.toNat_ofInt_natCast (n := r.pc.toNat + 2) (by simp only [Register.modulus]; omega)
    show Register.ofInt ((r.advance.pc.toNat : Int) + 2) = _
    rw [hnext]
    rfl

/-- **An instruction that takes effect sets the program counter to its successor.** By cases on the
instruction: it has gone there itself, or may have skipped, or the program counter is as it was. -/
theorem pc_done (hi : i.InRange) (reach : m.registers.pc.toNat ≤ 4094) (answer : KeyAnswer) (keypad : κ) :
    ((m.after i answer keypad).proceed i.flow).registers.pc = .ofInt (m.successor answer i : Nat) := by
  have hnext : m.registers.pc.toNat + 2 < 65536 := by omega
  cases i with
  | ret | jump nnn | call nnn => rfl
  | jumpOffset nnn =>
    have hnnn : nnn.toNat < 4096 := hi
    have hsum : (BitVec.ofNat 16 (nnn.toNat + (m.registers.byte 0).toNat)).toNat =
        nnn.toNat + (m.registers.byte 0).toNat := by
      rw [BitVec.toNat_ofNat]
      exact Nat.mod_eq_of_lt (by omega)
    exact congrArg (fun n : Nat => Register.ofInt n) hsum
  | skipEqByte x nn | skipNeByte x nn | skipEq x y | skipNe x y | skipKeyDown x | skipKeyUp x =>
    exact pc_advance_skip hnext
  | storeRegisters x =>
    exact congrArg (fun pc : Register 16 => Register.ofInt (pc.toNat + 2)) Registers.pc_pass
  | loadRegisters x =>
    exact congrArg (fun pc : Register 16 => Register.ofInt (pc.toNat + 2))
      (Registers.pc_pass.trans Registers.pc_load)
  | _ => rfl

/-- The program goes on at a return address, at a target, or one or two instructions further. -/
theorem successor_cases (hi : i.InRange) (answer : KeyAnswer) :
    (i = .ret ∧ m.successor answer i = (m.memory.word (m.registers.sp.toNat - 2)).toNat) ∨
      (∃ t ≤ 0x10fe, m.target? i = some t ∧ m.successor answer i = t) ∨
        m.successor answer i = m.registers.pc.toNat + 2 ∨ m.successor answer i = m.registers.pc.toNat + 4 := by
  have hsequel : ∀ c : Bool, (if c then m.registers.pc.toNat + 4 else m.registers.pc.toNat + 2) =
      m.registers.pc.toNat + 2 ∨ (if c then m.registers.pc.toNat + 4 else m.registers.pc.toNat + 2) =
      m.registers.pc.toNat + 4 := by
    rintro (_ | _)
    · exact .inl rfl
    · exact .inr rfl
  cases i with
  | ret => exact .inl ⟨rfl, rfl⟩
  | jump nnn | call nnn =>
    have hnnn : nnn.toNat < 4096 := hi
    exact .inr (.inl ⟨nnn.toNat, by omega, rfl, rfl⟩)
  | jumpOffset nnn =>
    have hnnn : nnn.toNat < 4096 := hi
    exact .inr (.inl ⟨_, by omega, rfl, rfl⟩)
  | skipEqByte x nn | skipNeByte x nn | skipEq x y | skipNe x y | skipKeyDown x | skipKeyUp x =>
    exact .inr (.inr (hsequel _))
  | _ => exact .inr (.inr (.inl rfl))

theorem successor_lt (hi : i.InRange) (reach : m.registers.pc.toNat ≤ 4094) (answer : KeyAnswer) :
    m.successor answer i < 65536 := by
  rcases m.successor_cases hi answer with ⟨-, hn⟩ | ⟨t, ht, -, hn⟩ | hn | hn
  · rw [hn]
    exact (m.memory.word (m.registers.sp.toNat - 2)).isLt
  all_goals omega

theorem toNat_pc_done (hi : i.InRange) (reach : m.registers.pc.toNat ≤ 4094) (answer : KeyAnswer)
    (keypad : κ) : ((m.after i answer keypad).proceed i.flow).registers.pc.toNat = m.successor answer i := by
  rw [pc_done hi reach]
  exact Register.toNat_ofInt_natCast (successor_lt hi reach answer)

/-! ## Skips -/

/-- The low four bits of a byte are its remainder. -/
theorem keyCode_eq (m : Machine κ) (x : Nat) : m.keyCode x = m.registers.byte x % 16 := by
  apply BitVec.eq_of_toNat_eq
  rw [keyCode, BitVec.toNat_and, BitVec.toNat_umod]
  exact Nat.and_two_pow_sub_one_eq_mod _ 4

theorem successor_skip (h : i.opposite? = some j) (answer : KeyAnswer) : m.successor answer i =
    if m.skips answer i then m.registers.pc.toNat + 4 else m.registers.pc.toNat + 2 := by
  cases i with
  | skipEqByte x nn | skipNeByte x nn | skipEq x y | skipNe x y | skipKeyDown x | skipKeyUp x => rfl
  | _ => exact nomatch h

theorem skips_congr {n : Machine κ} (hregs : n.registers = m.registers) (answer : KeyAnswer) :
    n.skips answer i = m.skips answer i := by
  cases i <;> simp only [skips, hregs]

/-- On the same answer, one skips if the other does not. -/
theorem skips_opposite (h : i.opposite? = some j) (answer : KeyAnswer) :
    m.skips answer j = !m.skips answer i := by
  cases i with
  | skipEqByte x nn | skipEq x y | skipKeyDown x =>
    obtain rfl := Option.some.inj h
    rfl
  | skipNeByte x nn | skipNe x y | skipKeyUp x =>
    obtain rfl := Option.some.inj h
    exact (Bool.not_not _).symm
  | _ => exact nomatch h

/-- The opposite of a skip is one too, and takes effect wherever it stands. -/
theorem accepted_opposite (h : i.opposite? = some j) :
    j.opposite? = some i ∧ m.Fits j ∧ m.refusal? j = none := by
  cases i with
  | skipEqByte x nn | skipNeByte x nn | skipEq x y | skipNe x y | skipKeyDown x | skipKeyUp x =>
    obtain rfl := Option.some.inj h
    exact ⟨rfl, trivial, rfl⟩
  | _ => exact nomatch h

section

variable [Keypad κ]

/-- **Where a step leaves the program counter**, whatever else it does: at the target of a jump or a call, at
the return address, behind the next instruction if that is skipped, and at the next instruction otherwise. Keys
are asked for by the low four bits of a register. Of two skips on opposite conditions, on machines with the same
registers and the same answer from the keypad, exactly one is taken. -/
theorem step_successor (hrun : step m = .ok i m') :
    ∃ a, m.instruction? = some i ∧ m.question i m.keypad = .ok a m'.keypad ∧
      m'.registers.pc.toNat = m.successor a i ∧
      (∀ x, i = .skipKeyDown x ∨ i = .skipKeyUp x →
        Keypad.isDown (m.registers.byte x % 16) m.keypad = .ok a.isDown m'.keypad) ∧
      ∀ j (n : Machine κ), i.opposite? = some j → n.registers = m.registers → n.instruction? = some j →
        answer (n.question j n.keypad) = .ok a →
          ∃ n', step n = .ok j n' ∧
            (m'.registers.pc.toNat = m.registers.pc.toNat + 4 ∧
                n'.registers.pc.toNat = m.registers.pc.toNat + 2 ∨
              m'.registers.pc.toNat = m.registers.pc.toNat + 2 ∧
                n'.registers.pc.toNat = m.registers.pc.toNat + 4) := by
  cases steps_of_run hrun with
  | @done _ a keypad reach fetched fits accepted answered =>
    have hpc := toNat_pc_done (Instruction.inRange_of_decode fetched) reach a keypad
    refine ⟨a, fetched, ?_, hpc, fun x hkey => ?_, fun j n hj hregs hfetched hanswer => ?_⟩
    · rw [keypad_proceed]
      exact answered
    · rw [keypad_proceed, ← keyCode_eq]
      have hask : (KeyAnswer.down <$> Keypad.isDown (m.keyCode x)) m.keypad = .ok a keypad := by
        rcases hkey with rfl | rfl <;> exact answered
      obtain ⟨held, hdown, rfl⟩ := map_eq_ok hask
      exact hdown
    · obtain ⟨hi, hfits, haccepted⟩ := accepted_opposite (m := n) hj
      obtain ⟨k, hask⟩ := answer_eq_ok hanswer
      have hreach : n.registers.pc.toNat ≤ 4094 := hregs ▸ reach
      refine ⟨_, step_done hreach hfetched hfits haccepted hask, ?_⟩
      rw [hpc, toNat_pc_done (Instruction.inRange_of_decode hfetched) hreach, successor_skip hj,
        successor_skip hi, skips_congr hregs, skips_opposite hj, hregs]
      cases m.skips a i with
      | false => exact .inr ⟨rfl, rfl⟩
      | true => exact .inl ⟨rfl, rfl⟩

/-- Key 15 is held, and named by a register that holds more than four bits. -/
theorem step_successor_key :
    let m (op : Opcode) : Machine ScriptedKeypad :=
      { Machine.withOpcode op (.holding [15]) with registers := powerOn.put 0 0x1f }
    ∃ m₁ m₂, step (m 0xe09e) = .ok (.skipKeyDown 0) m₁ ∧ m₁.registers.pc.toNat = 0x204 ∧
      step (m 0xe0a1) = .ok (.skipKeyUp 0) m₂ ∧ m₂.registers.pc.toNat = 0x202 := by
  intro m
  have hi : (m 0xe09e).instruction? = some (.skipKeyDown 0) :=
    instruction?_withOpcode 0xe09e (ScriptedKeypad.holding [15])
  have hj : (m 0xe0a1).instruction? = some (.skipKeyUp 0) :=
    instruction?_withOpcode 0xe0a1 (ScriptedKeypad.holding [15])
  have hcode : (powerOn.put 0 0x1f).byte 0 &&& 0x0f = 15 := by decide
  have hheld : ∀ op, (m op).question (.skipKeyDown 0) (m op).keypad = .ok (.down true) (m op).keypad := by
    intro op
    show (KeyAnswer.down <$> Keypad.isDown ((powerOn.put 0 0x1f).byte 0 &&& 0x0f)) (m op).keypad = _
    rw [hcode]
    rfl
  have hrun := step_done (by decide) hi trivial rfl (hheld 0xe09e)
  obtain ⟨a, -, hask, hpc, -, hopposite⟩ := step_successor hrun
  rw [hheld 0xe09e] at hask
  obtain ⟨rfl, -⟩ := EStateM.Result.ok.inj hask
  obtain ⟨m₂, hrun₂, hskip⟩ := hopposite _ (m 0xe0a1) rfl rfl hj (congrArg answer (hheld 0xe0a1))
  have hstart : (m 0xe09e).registers.pc.toNat = 0x200 := rfl
  have htaken : (m 0xe09e).successor (.down true) (.skipKeyDown 0) = 0x204 := rfl
  rw [htaken] at hpc
  exact ⟨_, m₂, hrun, hpc, hrun₂, by omega⟩

end

/-! ## How far a run gets -/

/-- The target of every jump and every call is even. -/
def EvenTarget (m : Machine κ) (i : Instruction) : Prop := ∀ t, m.target? i = some t → t % 2 = 0

/-- The stack holds these return addresses, which lie behind instructions, and the program counter is in
reach of a jump. -/
structure Disciplined (m : Machine κ) (calls : List Word) : Prop where
  represents : m.Represents calls
  bounds : ∀ a ∈ calls, 2 ≤ a.toNat ∧ a.toNat ≤ 0x1000
  pc_le : m.registers.pc.toNat ≤ 0x10fe
  quiet : m.registers.pc.Quiet

/-- The program counter and these return addresses are even. -/
structure Aligned (m : Machine κ) (calls : List Word) : Prop where
  pc : m.registers.pc.toNat % 2 = 0
  calls : ∀ a ∈ calls, a.toNat % 2 = 0

theorem Disciplined.congr (h : m.Disciplined calls) (hpc : m'.registers.pc = m.registers.pc)
    (hsp : m'.registers.sp = m.registers.sp) (hbyte : ∀ a < 0x200, m'.memory.byte a = m.memory.byte a) :
    m'.Disciplined calls where
  represents := h.represents.congr hsp fun a _ ha => hbyte a (by omega)
  bounds := h.bounds
  pc_le := hpc ▸ h.pc_le
  quiet := hpc ▸ h.quiet

theorem Started.pc (h : m.Started) : m.registers.pc = .ofNat 0x200 := by
  rw [h.registers]
  rfl

theorem Started.disciplined (h : m.Started) : m.Disciplined [] where
  represents := h.represents
  bounds := nofun
  pc_le := by
    rw [h.pc]
    decide
  quiet := by
    rw [h.pc]
    exact ⟨rfl, rfl⟩

theorem Started.aligned (h : m.Started) : m.Aligned [] where
  pc := by
    rw [h.pc]
    decide
  calls := nofun

theorem toNat_add_two {p : Word} (h : p.toNat ≤ 4094) : (p + 2).toNat = p.toNat + 2 := by
  have hlt : p.toNat + 2 < 65536 := by omega
  rw [BitVec.toNat_add]
  exact Nat.mod_eq_of_lt hlt

section

variable [Keypad κ]

/-- **A step keeps the discipline**, and evenness where it goes to even targets. It goes on at a return
address, which is one of those on the stack, at a target, or behind an instruction in memory. -/
theorem Disciplined.executed (h : m.Disciplined calls) (hspares : m.SparesStack i)
    (hrun : step m = .ok i m') :
    ∃ calls', CallStack.step calls m.registers.pc.value i = .ok calls' ∧ m'.Disciplined calls' ∧
      (m.Aligned calls → m.EvenTarget i → m'.Aligned calls') := by
  obtain ⟨calls', hstep, hrep⟩ := h.represents.step hspares hrun
  cases steps_of_run hrun with
  | @done _ answer keypad reach fetched fits accepted answered =>
    have hi := Instruction.inRange_of_decode fetched
    have hpc := pc_done hi reach answer keypad
    have hcases := m.successor_cases hi answer
    have hmem : i = .ret → m.memory.word (m.registers.sp.toNat - 2) ∈ calls := by
      rintro rfl
      exact h.represents.top_mem accepted
    have hcalls : ∀ a ∈ calls', a ∈ calls ∨ a.toNat = m.registers.pc.toNat + 2 := fun a ha =>
      (CallStack.mem_of_step hstep ha).imp_right fun heq => by
        rw [heq, toNat_add_two reach, Register.toNat_value]
    have hle : m.successor answer i ≤ 0x10fe := by
      rcases hcases with ⟨hret, hn⟩ | ⟨t, ht, -, hn⟩ | hn | hn
      · have hbounds := h.bounds _ (hmem hret)
        omega
      all_goals omega
    have hlt : m.successor answer i < Register.modulus 16 := by
      simp only [Register.modulus]
      omega
    have hnat := hpc ▸ Register.toNat_ofInt_natCast hlt
    refine ⟨calls', hstep, ⟨hrep, fun a ha => ?_, hnat ▸ hle, hpc ▸ Register.quiet_ofInt hlt⟩,
      fun haligned heven => ⟨?_, fun a ha => ?_⟩⟩
    · rcases hcalls a ha with hold | hnew
      · exact h.bounds a hold
      · omega
    · have hpceven := haligned.pc
      rw [hnat]
      rcases hcases with ⟨hret, hn⟩ | ⟨t, -, htarget, hn⟩ | hn | hn
      · rw [hn, haligned.calls _ (hmem hret)]
      · rw [hn, heven t htarget]
      all_goals omega
    · have hpceven := haligned.pc
      rcases hcalls a ha with hold | hnew
      · exact haligned.calls a hold
      · omega

/-- What a history that does not store over its stack has made of the return addresses. -/
theorem History.disciplined {log : Log κ} (hs : m₀.Started) (hh : m₀.History log m)
    (hreset : ∀ m', (m', .reset) ∉ log)
    (hspares : ∀ m' i, (m', .executed i) ∈ log → m'.SparesStack i) :
    ∃ calls, CallStack.run [] (trace log) = .ok calls ∧ m.Disciplined calls ∧
      ((∀ m' i, (m', .executed i) ∈ log → m'.EvenTarget i) → m.Aligned calls) := by
  refine hh.keeps (P := fun log m => ∃ calls, CallStack.run [] (trace log) = .ok calls ∧
    m.Disciplined calls ∧ ((∀ m' i, (m', .executed i) ∈ log → m'.EvenTarget i) → m.Aligned calls))
      ⟨[], rfl, hs.disciplined, fun _ => hs.aligned⟩ ?_
  rintro before m d m' ⟨calls, hcalls, h, haligned⟩ hmem does
  rw [trace_concat]
  by_cases hexecuted : ∃ i, d = .executed i
  · obtain ⟨i, rfl⟩ := hexecuted
    cases does with
    | executed done =>
      obtain ⟨calls', hstep, h', hnext⟩ := h.executed (hspares m i hmem) done
      refine ⟨calls', ?_, h', fun heven => ?_⟩
      · rw [CallStack.run_append_eq_ok hcalls]
        show (CallStack.step calls m.registers.pc.value i >>= fun calls => CallStack.run calls []) = _
        rw [hstep]
        rfl
      · exact hnext (haligned fun m' i hin => heven m' i (List.mem_append_left _ hin))
          (heven m i (List.mem_append_right _ (List.mem_singleton.2 rfl)))
  · have hother : ∀ i, d ≠ .executed i := fun i hd => hexecuted ⟨i, hd⟩
    have hnoreset : d ≠ .reset := by
      rintro rfl
      exact hreset m hmem
    obtain ⟨hpc, hsp, hbyte⟩ := does.idle h.represents.quiet_sp hother hnoreset
    have hstation : d.station? m = none := by
      cases d with
      | executed i => exact absurd rfl (hother i)
      | _ => rfl
    rw [hstation, Option.toList_none, List.append_nil]
    refine ⟨calls, hcalls, h.congr hpc hsp hbyte, fun heven => ?_⟩
    have hbefore := haligned fun m' i hin => heven m' i (List.mem_append_left _ hin)
    exact ⟨hpc ▸ hbefore.pc, hbefore.calls⟩

/-- **The program counter never leaves the reach of a jump**, in every history from a new or reset machine
that stores nothing over its stack. The pending return addresses, which are the words on the stack, lie between
2 and 0x1000, and the program counter is at most 0x10fe, so it never wraps and has no flag. If every jump and
every call goes to an even address, the program counter and the pending return addresses are even. -/
theorem pc_disciplined {log : Log κ} (hs : m₀.Started) (hh : m₀.History log m)
    (hreset : ∀ m', (m', .reset) ∉ log)
    (hspares : ∀ m' i, (m', .executed i) ∈ log → m'.SparesStack i) :
    ∃ calls, CallStack.run [] (trace log) = .ok calls ∧ m.Represents calls ∧
      (∀ a ∈ calls, 2 ≤ a.toNat ∧ a.toNat ≤ 0x1000) ∧
      m.registers.pc.toNat ≤ 0x10fe ∧
      (m.registers.pc.overflowed = false ∧ m.registers.pc.borrowed = false) ∧
      ((∀ m' i, (m', .executed i) ∈ log → m'.EvenTarget i) →
        m.registers.pc.toNat % 2 = 0 ∧ ∀ a ∈ calls, a.toNat % 2 = 0) := by
  obtain ⟨calls, hcalls, h, haligned⟩ := hh.disciplined hs hreset hspares
  exact ⟨calls, hcalls, h.represents, h.bounds, h.pc_le, h.quiet, fun heven =>
    ⟨(haligned heven).pc, (haligned heven).calls⟩⟩

/-- A call to an even address at the start of a program: one even address is pending. -/
theorem pc_disciplined_call :
    let m : Machine ScriptedKeypad := .withOpcode 0x2300 (.holding [])
    ∃ m', step m = .ok (.call 0x300) m' ∧ m'.Represents [0x202] ∧ m'.registers.pc.toNat ≤ 0x10fe ∧
      m'.registers.pc.toNat % 2 = 0 := by
  intro m
  have hstarted : m.Started := .load (.new (.holding []) {} (.ofSeed 0)) (load_withOpcode 0x2300 _)
  have hi : m.instruction? = some (.call 0x300) := instruction?_withOpcode _ _
  have hrun := step_done (m := m) (a := .silence) (k := m.keypad) (by decide) hi (show _ < _ by decide) rfl rfl
  let log : Log ScriptedKeypad := [(m, .executed (.call 0x300))]
  have hh : m.History log _ := .next .start (.executed hrun)
  have honly : ∀ m' i, (m', Deed.executed i) ∈ log → m' = m ∧ i = .call 0x300 := fun m' i hmem => by
    simpa only [log, List.mem_singleton, Prod.mk.injEq, Deed.executed.injEq] using hmem
  have hreset : ∀ m', (m', Deed.reset) ∉ log := fun m' hmem => by
    simp only [log, List.mem_singleton, Prod.mk.injEq, reduceCtorEq, and_false] at hmem
  have hspares : ∀ m' i, (m', Deed.executed i) ∈ log → m'.SparesStack i := fun m' i hmem => by
    obtain ⟨rfl, rfl⟩ := honly m' i hmem
    exact fun _ hstores => hstores.elim
  obtain ⟨calls, hcalls, hrep, -, hle, -, heven⟩ := pc_disciplined hstarted hh hreset hspares
  obtain rfl : [0x202] = calls := Except.ok.inj hcalls
  refine ⟨_, hrun, hrep, hle, (heven fun m' i hmem => ?_).1⟩
  obtain ⟨rfl, rfl⟩ := honly m' i hmem
  intro t ht
  obtain rfl := Option.some.inj ht
  rfl

end

end Machine

end Chip8
