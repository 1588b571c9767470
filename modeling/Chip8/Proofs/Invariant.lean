import Chip8.Proofs.Steps

/-!
# Proofs/Invariant — what holds of the registers in every machine that a run can reach

A machine comes about from `Machine.new` by what its host may do with it: load a program, step, carry out
a decoded instruction, tick, take the redraw, refresh the keypad, reset. Operations that end with a
reported error are part of a run; a fault ends it. The invariant is `Registers.Regular`: no register has
both flags up, the timers have none, and the stack pointer names an entry of the stack and has none
either. Every update keeps it (`Regular.put`, `Regular.advance`, …), so every instruction does
(`regular_after`), so every transition (`Transition.regular`), and `Reachable.regular` is the induction.
-/

namespace Chip8

/-! ## The invariant -/

/-- A register with at most one flag up. -/
def Register.Single {width : Nat} (r : Register width) : Prop :=
  ¬ (r.overflowed = true ∧ r.borrowed = true)

/-- A stack pointer at an entry of the stack, or at the end of the last one. -/
structure Register.IsEntry (sp : Register 8) : Prop where
  quiet : sp.Quiet
  even : sp.toNat % 2 = 0
  low : 0x52 ≤ sp.toNat
  high : sp.toNat ≤ 0xfe

/-- The shape that every register file of a run has. -/
structure Registers.Regular (r : Registers) : Prop where
  v : ∀ x (h : x < 16), r.v[x].Single
  index : r.index.Single
  pc : r.pc.Single
  sp : r.sp.IsEntry
  delay : r.delay.Quiet
  sound : r.sound.Quiet

namespace Register

theorem single_ofInt {width : Nat} (v : Int) : (ofInt v : Register width).Single :=
  not_overflowed_and_borrowed_ofInt v

theorem single_ofNat {width : Nat} (n : Nat) : (ofNat n : Register width).Single :=
  fun h => Bool.false_ne_true h.1

theorem quiet_countDown {r : Register 8} (h : r.Quiet) : r.countDown.Quiet := by
  have hlt : r.toNat < modulus 8 := r.toNat_lt
  by_cases hzero : r.toNat = 0
  · rwa [countDown, if_pos hzero]
  · rw [countDown, if_neg hzero, show (r.toNat : Int) - 1 = (r.toNat - 1 : Nat) by omega]
    exact quiet_ofInt (by omega)

theorem isEntry_ofInt {n : Nat} (heven : n % 2 = 0) (hlow : 0x52 ≤ n) (hhigh : n ≤ 0xfe) :
    (ofInt n : Register 8).IsEntry := by
  have hlt : n < modulus 8 := by simp only [modulus]; omega
  have hn : (ofInt n : Register 8).toNat = n := toNat_ofInt_natCast hlt
  exact ⟨quiet_ofInt hlt, by rw [hn, heven], by rw [hn]; exact hlow, by rw [hn]; exact hhigh⟩

end Register

/-! ## Updates keep it -/

namespace Registers.Regular

variable {r : Registers} {x : Nat}

theorem put (h : r.Regular) (x : Nat) (n : Int) : (r.put x n).Regular := by
  refine { h with v := fun i hi => ?_ }
  rw [getElem_put hi]
  split
  · exact Register.single_ofInt n
  · exact h.v i hi

theorem setFlag (h : r.Regular) (b : Bool) : (r.setFlag b).Regular := by
  rw [setFlag_eq_put]
  exact h.put _ _

theorem load (h : r.Regular) (data : List Byte) : (r.load data).Regular := by
  have hv : ∀ i (hi : i < 16), (r.load data).v[i].Single := fun i hi => by
    rw [getElem_load r data hi]
    split
    · exact Register.single_ofInt _
    · exact h.v i hi
  rw [Registers.load] at hv ⊢
  exact { h with v := hv }

theorem goto (h : r.Regular) (addr : Word) : (r.goto addr).Regular :=
  { h with pc := Register.single_ofInt _ }

theorem advance (h : r.Regular) : r.advance.Regular := { h with pc := Register.single_ofInt _ }

theorem skip (h : r.Regular) (c : Bool) : (r.skip c).Regular := by
  rw [Registers.skip]
  split
  · exact h.advance
  · exact h

theorem setIndex (h : r.Regular) (n : Int) : Regular { r with index := .ofInt n } :=
  { h with index := Register.single_ofInt n }

theorem pass (h : r.Regular) (d : Dialect) (n : Nat) : (r.pass d n).Regular := by
  rw [Registers.pass]
  split
  · exact h.setIndex _
  · exact h

theorem setDelay (h : r.Regular) (b : Byte) : Regular { r with delay := .ofInt b.toNat } :=
  { h with delay := Register.quiet_ofInt b.isLt }

theorem setSound (h : r.Regular) (b : Byte) : Regular { r with sound := .ofInt b.toNat } :=
  { h with sound := Register.quiet_ofInt b.isLt }

theorem pushed (h : r.Regular) (hsp : ¬ 256 ≤ r.sp.toNat + 2) :
    Regular { r with sp := .ofInt (r.sp.toNat + 2) } := by
  obtain ⟨-, heven, hlow, -⟩ := h.sp
  exact { h with sp := Register.isEntry_ofInt (n := r.sp.toNat + 2) (by omega) (by omega) (by omega) }

theorem popped (h : r.Regular) (hsp : ¬ r.sp.toNat < 84) :
    Regular { r with sp := .ofInt (r.sp.toNat - 2) } := by
  obtain ⟨-, heven, -, hhigh⟩ := h.sp
  rw [show (r.sp.toNat : Int) - 2 = (r.sp.toNat - 2 : Nat) by omega]
  exact { h with sp := Register.isEntry_ofInt (by omega) (by omega) (by omega) }

theorem start {pc sp : Nat} (heven : sp % 2 = 0) (hlow : 0x52 ≤ sp) (hhigh : sp ≤ 0xfe) :
    (Registers.start pc sp).Regular where
  v x hx := by
    rw [Registers.start, Vector.getElem_replicate]
    exact Register.single_ofNat 0
  index := Register.single_ofNat 0
  pc := Register.single_ofNat pc
  sp := by
    have hsp := Register.isEntry_ofInt heven hlow hhigh
    rwa [Register.ofInt_eq_ofNat (by simp only [Register.modulus]; omega)] at hsp
  delay := ⟨rfl, rfl⟩
  sound := ⟨rfl, rfl⟩

end Registers.Regular

namespace Machine

variable {κ : Type} {m m' : Machine κ} {i : Instruction}

theorem regular_powerOn : powerOn.Regular := .start (by decide) (by decide) (by decide)

/-- **Every instruction keeps the invariant**, as long as the call stack does not refuse it. -/
theorem regular_after (h : m.registers.Regular) (hok : m.refusal? i = none) (answer : KeyAnswer) :
    (m.registersAfter answer i).Regular := by
  cases i with
  | ret => exact (h.popped (refusal?_ret_eq_none.1 hok)).goto _
  | call nnn => exact (h.pushed (refusal?_call_eq_none.1 hok)).goto nnn
  | clearScreen => exact h
  | storeDecimal x => exact h
  | jump nnn => exact h.goto _
  | jumpOffset nnn => exact h.goto _
  | skipEqByte x nn => exact h.skip _
  | skipNeByte x nn => exact h.skip _
  | skipEq x y => exact h.skip _
  | skipNe x y => exact h.skip _
  | skipKeyDown x => exact h.skip _
  | skipKeyUp x => exact h.skip _
  | setByte x nn => exact h.put x _
  | addByte x nn => exact h.put x _
  | move x y => exact h.put x _
  | or x y => exact h.put x _
  | and x y => exact h.put x _
  | xor x y => exact h.put x _
  | random x nn => exact h.put x _
  | getDelay x => exact h.put x _
  | awaitKey x => exact h.put x _
  | add x y => exact (h.put x _).setFlag _
  | sub x y => exact (h.put x _).setFlag _
  | subFrom x y => exact (h.put x _).setFlag _
  | shiftRight x y => exact (h.put x _).setFlag _
  | shiftLeft x y => exact (h.put x _).setFlag _
  | draw x y n => exact h.setFlag _
  | setIndex nnn => exact h.setIndex _
  | addIndex x => exact h.setIndex _
  | setGlyph x => exact h.setIndex _
  | setDelay x => exact h.setDelay _
  | setSound x => exact h.setSound _
  | storeRegisters x => exact h.pass _ _
  | loadRegisters x => exact (h.load _).pass _ _

theorem regular_proceed (h : m.registers.Regular) (flow : Flow) : (m.proceed flow).registers.Regular := by
  cases flow with
  | next => exact h.advance
  | jumped => exact h

/-- A refused instruction leaves the machine as it was: writing back the number that a stack pointer without
flags holds is writing nothing. -/
theorem refused_eq (h : m.registers.sp.Quiet) : m.refused i = m := by
  cases i with
  | call nnn => rw [refused, Register.ofInt_toNat h]
  | _ => rfl

/-! ## Runs -/

/-- The machine that an operation leaves, unless it ended the run. -/
def left? {α : Type} : EStateM.Result Stop (Machine κ) α → Option (Machine κ)
  | .ok _ m | .error (.error _) m => some m
  | .error (.fault _) _ => none

/-- What the host may do with a machine, and what comes of it. -/
inductive Transition [Keypad κ] (m : Machine κ) : Machine κ → Prop
  | load {program : List Byte} {m' : Machine κ} (loaded : m.load program = .ok m') : Transition m m'
  | step {m' : Machine κ} (left : left? (step m) = some m') : Transition m m'
  | execute {op : Opcode} {i : Instruction} {m' : Machine κ} (decoded : Instruction.decode op = some i)
      (left : left? (execute i m) = some m') : Transition m m'
  | tickTimers : Transition m m.tickTimers
  | takeRedraw : Transition m m.takeRedraw.2
  | refresh {m' : Machine κ} (left : left? (refreshInput m) = some m') : Transition m m'
  | reset : Transition m m.reset
  /-- The host's keypad changes by itself. -/
  | host (keypad : κ) : Transition m { m with keypad }

/-- The machines that runs reach from a new one. -/
inductive Reachable [Keypad κ] : Machine κ → Prop
  | new (keypad : κ) (dialect : Dialect) (random : RandomStream) : Reachable (.new keypad dialect random)
  | next {m m' : Machine κ} (reachable : Reachable m) (transition : m.Transition m') : Reachable m'

theorem load_inv {program : List Byte} (h : m.load program = .ok m') :
    m' = { m with memory := m.memory.store Memory.programBase program } := by
  by_cases hfits : program.length ≤ Memory.programCapacity
  · have hload : m.memory.load program = .ok (m.memory.store Memory.programBase program) := if_pos hfits
    rw [load, hload, ok_bind] at h
    exact (Except.ok.inj h).symm
  · have hload : m.memory.load program =
        .error (.imageTooLarge program.length Memory.programCapacity) := if_neg hfits
    rw [load, hload] at h
    cases h

section

variable [Keypad κ]

theorem regular_execute (h : m.registers.Regular) (hi : i.InRange) (hleft : left? (execute i m) = some m') :
    m'.registers.Regular := by
  have hout := executes (m := m) hi
  cases hrun : execute i m with
  | ok flow n =>
    rw [hrun] at hleft hout
    obtain rfl := Option.some.inj hleft
    cases hout with
    | done fits accepted answered => exact regular_after h accepted _
  | error e n =>
    rw [hrun] at hleft hout
    cases hout with
    | refused href =>
      obtain rfl := Option.some.inj hleft
      rwa [refused_eq h.sp.quiet]
    | unanswered failed =>
      obtain rfl := Option.some.inj hleft
      exact h
    | fault outside memory => exact absurd hleft.symm (Option.some_ne_none m')

theorem regular_step (h : m.registers.Regular) (hleft : left? (step m) = some m') :
    m'.registers.Regular := by
  have hout := steps_to (m := m)
  cases hrun : step m with
  | ok i n =>
    rw [hrun] at hleft hout
    obtain rfl := Option.some.inj hleft
    cases hout with
    | done reach fetched fits accepted answered =>
      exact regular_proceed (m := m.after i _ _) (regular_after h accepted _) _
  | error e n =>
    rw [hrun] at hleft hout
    cases hout with
    | unknown reach fetched =>
      obtain rfl := Option.some.inj hleft
      exact h
    | refused reach fetched href =>
      obtain rfl := Option.some.inj hleft
      rwa [refused_eq h.sp.quiet]
    | unanswered reach fetched failed =>
      obtain rfl := Option.some.inj hleft
      exact h
    | fault reach fetched outside memory => exact absurd hleft.symm (Option.some_ne_none m')
    | unreachable reach => exact absurd hleft.symm (Option.some_ne_none m')

theorem refresh_inv (h : left? (refreshInput m) = some m') : ∃ keypad, m' = { m with keypad } := by
  rw [refreshInput, onKeypad] at h
  cases hrefresh : (Keypad.refresh : EStateM IoError κ Unit) m.keypad with
  | ok u keypad =>
    rw [hrefresh] at h
    exact ⟨keypad, (Option.some.inj h).symm⟩
  | error e keypad =>
    rw [hrefresh] at h
    exact ⟨keypad, (Option.some.inj h).symm⟩

/-- **Every transition keeps the invariant.** -/
theorem Transition.regular (t : m.Transition m') (h : m.registers.Regular) : m'.registers.Regular := by
  cases t with
  | load loaded =>
    rw [load_inv loaded]
    exact h
  | step left => exact regular_step h left
  | execute decoded left => exact regular_execute h (Instruction.inRange_of_decode decoded) left
  | tickTimers =>
    exact { h with delay := Register.quiet_countDown h.delay, sound := Register.quiet_countDown h.sound }
  | takeRedraw => exact h
  | refresh left =>
    obtain ⟨keypad, rfl⟩ := refresh_inv left
    exact h
  | reset => exact regular_powerOn
  | host keypad => exact h

/-- **The registers are regular in every machine that a run reaches.** -/
theorem Reachable.regular (h : Reachable m) : m.registers.Regular := by
  induction h with
  | new keypad dialect random => exact regular_powerOn
  | next _ transition ih => exact transition.regular ih

end

/-! ## A machine with one opcode -/

/-- A new machine with an opcode at the start of its program. -/
def withOpcode (op : Opcode) (keypad : κ) : Machine κ :=
  { Machine.new keypad {} (.ofSeed 0) with
    memory := Memory.new.store Memory.programBase [op.high, op.low] }

theorem instruction?_withOpcode (op : Opcode) (keypad : κ) :
    (withOpcode op keypad).instruction? = Instruction.decode op :=
  congrArg Instruction.decode (Memory.word_store op (by decide))

theorem load_withOpcode (op : Opcode) (keypad : κ) :
    (Machine.new keypad {} (.ofSeed 0)).load [op.high, op.low] = .ok (withOpcode op keypad) := rfl

theorem reachable_withOpcode [Keypad κ] (op : Opcode) (keypad : κ) : Reachable (withOpcode op keypad) :=
  .next (.new keypad {} (.ofSeed 0)) (.load (load_withOpcode op keypad))

end Machine

end Chip8
