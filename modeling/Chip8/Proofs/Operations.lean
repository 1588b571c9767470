import Chip8.Machine.Execute
import Chip8.Proofs.Bytes
import Chip8.Proofs.Updates

/-!
# Proofs/Operations — the operations instructions are made of, run on a machine

Running a sequence is running its head and going on from there (`bind_run`), so an instruction unfolds
into the operations it is made of, and each of these has one equation here: what it answers and what it
makes of the machine when its operands are in range. Nothing after this module unfolds an operation.
-/

namespace Chip8.Machine

variable {κ α β : Type} {m : Machine κ} {x : Nat}

/-! ## The monad -/

theorem bind_run {ε σ : Type} (op : EStateM ε σ α) (f : α → EStateM ε σ β) (m : σ) :
    (op >>= f) m = match op m with
      | .ok a m' => f a m'
      | .error e m' => .error e m' := by
  simp only [bind, EStateM.bind]
  cases op m <;> rfl

theorem map_run {ε σ : Type} (f : α → β) (op : EStateM ε σ α) (m : σ) :
    (f <$> op) m = match op m with
      | .ok a m' => .ok (f a) m'
      | .error e m' => .error e m' := by
  simp only [Functor.map, EStateM.map]
  cases op m <;> rfl

theorem map_eq_ok {ε σ : Type} {f : α → β} {op : EStateM ε σ α} {b : β} {s s' : σ}
    (h : (f <$> op) s = .ok b s') : ∃ a, op s = .ok a s' ∧ f a = b := by
  rw [map_run] at h
  cases hop : op s with
  | error e s₁ =>
    rw [hop] at h
    cases h
  | ok a s₁ =>
    rw [hop] at h
    obtain ⟨hb, rfl⟩ := EStateM.Result.ok.inj h
    exact ⟨a, rfl, hb⟩

theorem discard_run (op : MachineM κ α) (m : Machine κ) :
    (discard op) m = match op m with
      | .ok _ m' => .ok ⟨⟩ m'
      | .error e m' => .error e m' := by
  have hmap : discard op = (fun _ => PUnit.unit) <$> op := rfl
  rw [hmap, map_run]
  cases op m <;> rfl

theorem pure_run (a : α) (m : Machine κ) : (pure a : MachineM κ α) m = .ok a m := rfl

theorem get_run {ε σ : Type} (m : σ) : (get : EStateM ε σ σ) m = .ok m m := rfl

theorem set_run (m m' : Machine κ) : (set m' : MachineM κ PUnit) m = .ok ⟨⟩ m' := rfl

theorem throw_run (e : Stop) (m : Machine κ) : (throw e : MachineM κ α) m = .error e m := rfl

theorem modifyGet_run (f : Machine κ → α × Machine κ) (m : Machine κ) :
    (modifyGet f : MachineM κ α) m = .ok (f m).1 (f m).2 := rfl

/-- Stated for any `f`: unfolding `modifyRegisters` at a given one makes the kernel evaluate it, down to
the comparison with the greatest sum. -/
theorem modifyRegisters_run {f : Registers → Except Fault Registers} {r : Registers}
    (h : f m.registers = .ok r) : modifyRegisters f m = .ok () { m with registers := r } := by
  rw [modifyRegisters, h]

theorem modifyMemory_run {f : Memory → Except Fault Memory} {s : Memory} (h : f m.memory = .ok s) :
    modifyMemory f m = .ok () { m with memory := s } := by
  rw [modifyMemory, h]

theorem modifyMemory_fault {f : Memory → Except Fault Memory} {e : Fault} (h : f m.memory = .error e) :
    modifyMemory f m = .error (.fault e) m := by
  rw [modifyMemory, h]

/-! ## Registers -/

theorem pc_run (m : Machine κ) : pc m = .ok m.registers.pc.value m := rfl

theorem index_run (m : Machine κ) : index m = .ok m.registers.index.value m := rfl

theorem readRegister_run (hx : x < 16) : readRegister x m = .ok (m.registers.byte x) m := by
  simp only [readRegister, bind_run, get_run, Registers.read_eq_byte hx, check_ok]

theorem writeRegister_run (hx : x < 16) (b : Byte) :
    writeRegister x b m = .ok () { m with registers := m.registers.put x b.toNat } :=
  modifyRegisters_run (Registers.write_eq_put hx b)

theorem get_put (hx : x < 16) (n : Int) : (m.registers.put x n).get x = .ok (.ofInt n) := by
  rw [Registers.get_eq_ok hx, Registers.getElem_put hx, if_pos rfl]

theorem addRegister_run (hx : x < 16) {d : Int} (hd : d < 65536) :
    addRegister x d m = .ok (.ofInt ((m.registers.byte x).toNat + d))
      { m with registers := m.registers.put x ((m.registers.byte x).toNat + d) } := by
  rw [addRegister, bind_run, modifyRegisters_run (Registers.add_eq_put hx hd)]
  simp only [bind_run, get_run, get_put hx, check_ok]

theorem setRegister_run (hx : x < 16) {n : Int} (hlow : -65536 < n) (hhigh : n < 65536) :
    setRegister x n m = .ok (.ofInt n) { m with registers := m.registers.put x n } := by
  have hput : modifyRegisters (·.writeInt x n) m = .ok () { m with registers := m.registers.put x n } :=
    modifyRegisters_run (Registers.writeInt_eq_put hx n)
  simp only [setRegister, Register.number_eq_ok hlow hhigh, bind_run, check_ok, hput, get_run, get_put hx]

theorem setFlag_run (b : Bool) :
    setFlag b m = .ok () { m with registers := m.registers.setFlag b } := rfl

theorem setIndex_run (n : Nat) :
    setIndex n m = .ok () { m with registers := { m.registers with index := .ofInt n } } := rfl

theorem addIndex_run {n : Int} (hn : n < 65536) :
    addIndex n m = .ok ()
      { m with registers := { m.registers with index := .ofInt (m.registers.index.toNat + n) } } := by
  refine modifyRegisters_run ?_
  rw [Register.add_eq_ok (by decide) hn]
  rfl

theorem advance_run : advance m = .ok () { m with registers := m.registers.advance } := by
  refine modifyRegisters_run ?_
  rw [Register.add_eq_ok (by decide) (by decide)]
  rfl

theorem jump_run (addr : Word) :
    jump addr m = .ok .jumped { m with registers := m.registers.goto addr } := rfl

theorem skipIf_run (c : Bool) :
    skipIf c m = .ok .next { m with registers := m.registers.skip c } := by
  cases c with
  | false => rfl
  | true => simp only [skipIf, if_true, bind_run, advance_run, pure_run, Registers.skip]

theorem combine_run {y : Nat} (f : Byte → Byte → Byte) (hx : x < 16) (hy : y < 16) :
    combine f x y m = .ok .next { m with
      registers := m.registers.put x (f (m.registers.byte x) (m.registers.byte y)).toNat } := by
  simp only [combine, bind_run, readRegister_run hx, readRegister_run hy, writeRegister_run hx, pure_run]

/-- The byte that a shift of registers `x` and `y` works on, by the dialect. -/
def shiftSource (m : Machine κ) (x y : Nat) : Byte :=
  match m.dialect.shiftSource with
  | .vx => m.registers.byte x
  | .vy => m.registers.byte y

theorem shiftOperand_run {y : Nat} (hx : x < 16) (hy : y < 16) :
    shiftOperand x y m = .ok (m.shiftSource x y) m := by
  simp only [shiftOperand, shiftSource, bind_run, get_run]
  cases m.dialect.shiftSource with
  | vx => exact readRegister_run hx
  | vy => exact readRegister_run hy

theorem passBlock_run {n : Nat} (hn : n < 65536) :
    passBlock n m = .ok () { m with registers := m.registers.pass m.dialect n } := by
  have hnum : Register.number n = .ok (n : Int) := Register.number_eq_ok (by omega) (by omega)
  simp only [passBlock, Registers.pass, bind_run, get_run, hnum]
  cases m.dialect.advancesIndex with
  | false => rfl
  | true =>
    have hlt : (n : Int) < 65536 := by omega
    simp only [if_true, bind_run, check_ok, addIndex_run hlt]

/-! ## The keypad -/

/-- The code of the key that register `x` names. -/
def keyCode (m : Machine κ) (x : Nat) : Byte := m.registers.byte x &&& 0x0f

theorem onKeypad_eq_ok {question : EStateM IoError κ α} {a : α} {m' : Machine κ}
    (h : onKeypad question m = .ok a m') :
    ∃ pad, question m.keypad = .ok a pad ∧ m' = { m with keypad := pad } := by
  rw [onKeypad] at h
  cases hask : question m.keypad with
  | error cause pad =>
    rw [hask] at h
    cases h
  | ok answer pad =>
    rw [hask] at h
    obtain ⟨rfl, rfl⟩ := EStateM.Result.ok.inj h
    exact ⟨pad, rfl, rfl⟩

theorem isKeyDown_run [Keypad κ] (hx : x < 16) :
    isKeyDown x m = onKeypad (Keypad.isDown (m.keyCode x)) m := by
  simp only [isKeyDown, bind_run, readRegister_run hx, keyCode]

/-! ## The call stack -/

theorem moveStackPointer_run {d : Int} (hd : d < 65536) :
    moveStackPointer d m = .ok (.ofInt (m.registers.sp.toNat + d))
      { m with registers := { m.registers with sp := .ofInt (m.registers.sp.toNat + d) } } := by
  have hadd : m.registers.sp.add d = .ok (.ofInt (m.registers.sp.toNat + d)) :=
    Register.add_eq_ok (by decide) hd
  have hmoved : (do return { m.registers with sp := ← m.registers.sp.add d } : Except Fault Registers) =
      .ok { m.registers with sp := .ofInt (m.registers.sp.toNat + d) } := by
    rw [hadd, ok_bind]
    rfl
  rw [moveStackPointer, bind_run, modifyRegisters_run hmoved]
  rfl

/-- **A return address is stored at the stack pointer**, unless moving the pointer on would wrap it
around: then it is written back as it was. -/
theorem push_run (addr : Word) :
    push addr m =
      if 256 ≤ m.registers.sp.toNat + 2 then
        .error (.error (.stackOverflow m.registers.pc.value))
          { m with registers := { m.registers with sp := .ofInt m.registers.sp.toNat } }
      else
        .ok () { m with
          memory := m.memory.store m.registers.sp.toNat [addr.high, addr.low]
          registers := { m.registers with sp := .ofInt (m.registers.sp.toNat + 2) } } := by
  have hlt : m.registers.sp.toNat < 256 := m.registers.sp.toNat_lt
  have hstore : m.memory.setWord m.registers.sp.toNat addr =
      .ok (m.memory.store m.registers.sp.toNat [addr.high, addr.low]) :=
    Memory.write_eq_store (by simp only [List.length_cons, List.length_nil]; omega)
  have hentry : (entrySize : Int) < 65536 := by decide
  have hover : (Register.ofInt (m.registers.sp.toNat + entrySize) : Register 8).overflowed =
      decide (256 ≤ m.registers.sp.toNat + 2) := by
    rw [Register.overflowed_ofInt, decide_eq_decide, Register.modulus, entrySize]
    omega
  simp only [push, bind_run, get_run, moveStackPointer_run hentry, hover, decide_eq_true_iff]
  by_cases h : 256 ≤ m.registers.sp.toNat + 2
  · simp only [if_pos h]
    rfl
  · simp only [if_neg h]
    exact modifyMemory_run hstore

/-- **The most recent return address is the word below the stack pointer**, if that is past the first
entry. -/
theorem pop_run :
    pop m =
      if m.registers.sp.toNat < 84 then
        .error (.error (.stackUnderflow m.registers.pc.value)) m
      else
        .ok (m.memory.word (m.registers.sp.toNat - 2))
          { m with registers := { m.registers with sp := .ofInt (m.registers.sp.toNat - 2) } } := by
  have hlt : m.registers.sp.toNat < 256 := m.registers.sp.toNat_lt
  by_cases h : m.registers.sp.toNat < 84
  · have hbase : m.registers.sp.toNat < Memory.stackBase + entrySize := h
    simp only [pop, bind_run, get_run, if_pos hbase, if_pos h, pc_run, throw_run]
  · have hbase : ¬ m.registers.sp.toNat < Memory.stackBase + entrySize := h
    have hentry : -(entrySize : Int) < 65536 := by decide
    have hsub : (m.registers.sp.toNat : Int) + -(entrySize : Int) = m.registers.sp.toNat - 2 := rfl
    have hmoved : (Register.ofInt (m.registers.sp.toNat - 2) : Register 8).toNat =
        m.registers.sp.toNat - 2 := by
      have hcast : (m.registers.sp.toNat : Int) - 2 = (m.registers.sp.toNat - 2 : Nat) := by omega
      rw [hcast]
      exact Register.toNat_ofInt_natCast (by simp only [Register.modulus]; omega)
    have hin : m.registers.sp.toNat - 2 + 2 ≤ 4096 := by omega
    simp only [pop, bind_run, get_run, if_neg hbase, if_neg h, moveStackPointer_run hentry, hsub, hmoved,
      Memory.getWord_eq_word hin, check_ok]

end Chip8.Machine
