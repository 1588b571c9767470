import Chip8.Machine.Step
import Chip8.Proofs.Effect

/-!
# Proofs/Steps — everything an instruction or a step can come to

The outcomes of an instruction are the four of `Machine.Executes`, and a step adds two of its own, before
there is an instruction: the program counter is out of reach, or the word there encodes nothing
(`Machine.Steps`). `executes` and `steps_to` say that the lists are complete, so a proof about every step
is a proof about each entry, and never opens `execute` again.
-/

namespace Chip8.Machine

variable {κ : Type} {m : Machine κ} {i : Instruction}

/-! ## One instruction -/

/-- The outcomes of carrying out an instruction. -/
inductive Executes [Keypad κ] (m : Machine κ) (i : Instruction) : EStateM.Result Stop (Machine κ) Flow → Prop
  /-- It takes effect. -/
  | done {answer : KeyAnswer} {keypad : κ} (fits : m.Fits i) (accepted : m.refusal? i = none)
      (answered : m.question i m.keypad = .ok answer keypad) :
      Executes m i (.ok i.flow (m.after i answer keypad))
  /-- The call stack refuses it. -/
  | refused {e : Error} (refused : m.refusal? i = some e) : Executes m i (.error (.error e) (m.refused i))
  /-- The keypad fails. -/
  | unanswered {cause : IoError} {keypad : κ} (failed : m.question i m.keypad = .error cause keypad) :
      Executes m i (.error (.error (.io cause)) { m with keypad })
  /-- Its operands leave the memory. -/
  | fault {f : Fault} {m' : Machine κ} (outside : ¬ m.Fits i)
      (memory : m.registers.pc.toNat + 2 < 65536 → f.BeyondMemory) : Executes m i (.error (.fault f) m')

/-- **Every instruction has one of these outcomes.** -/
theorem executes [Keypad κ] (hi : i.InRange) : m.Executes i (execute i m) := by
  by_cases hfits : m.Fits i
  · cases href : m.refusal? i with
    | some e =>
      rw [execute_refused hfits href]
      exact .refused href
    | none =>
      rw [execute_accepted hi hfits href]
      cases hask : m.question i m.keypad with
      | ok answer keypad => exact .done hfits href hask
      | error cause keypad => exact .unanswered hask
  · obtain ⟨f, m', hrun, hf⟩ := execute_fault hi hfits
    rw [hrun]
    exact .fault hfits hf

/-! ## One step -/

/-- The instruction at the program counter, if the word there encodes one. -/
def instruction? (m : Machine κ) : Option Instruction :=
  Instruction.decode (m.memory.word m.registers.pc.toNat)

/-- The machine at the place where the program goes on. -/
def proceed (m : Machine κ) : Flow → Machine κ
  | .next => { m with registers := m.registers.advance }
  | .jumped => m

@[simp] theorem memory_proceed {flow : Flow} : (m.proceed flow).memory = m.memory := by
  cases flow <;> rfl

@[simp] theorem screen_proceed {flow : Flow} : (m.proceed flow).screen = m.screen := by
  cases flow <;> rfl

theorem screen_refused : (m.refused i).screen = m.screen := by
  cases i <;> rfl

@[simp] theorem random_proceed {flow : Flow} : (m.proceed flow).random = m.random := by
  cases flow <;> rfl

@[simp] theorem keypad_proceed {flow : Flow} : (m.proceed flow).keypad = m.keypad := by
  cases flow <;> rfl

@[simp] theorem sp_proceed {flow : Flow} : (m.proceed flow).registers.sp = m.registers.sp := by
  cases flow <;> rfl

/-- The outcomes of a step. -/
inductive Steps [Keypad κ] (m : Machine κ) : EStateM.Result Stop (Machine κ) Instruction → Prop
  /-- The instruction takes effect. -/
  | done {i : Instruction} {answer : KeyAnswer} {keypad : κ} (reach : m.registers.pc.toNat ≤ 4094)
      (fetched : m.instruction? = some i) (fits : m.Fits i) (accepted : m.refusal? i = none)
      (answered : m.question i m.keypad = .ok answer keypad) :
      Steps m (.ok i ((m.after i answer keypad).proceed i.flow))
  /-- The word at the program counter encodes nothing. -/
  | unknown (reach : m.registers.pc.toNat ≤ 4094) (fetched : m.instruction? = none) :
      Steps m (.error (.error (.unknownOpcode (m.memory.word m.registers.pc.toNat) m.registers.pc.value)) m)
  /-- The call stack refuses the instruction. -/
  | refused {i : Instruction} {e : Error} (reach : m.registers.pc.toNat ≤ 4094)
      (fetched : m.instruction? = some i) (refused : m.refusal? i = some e) :
      Steps m (.error (.error e) (m.refused i))
  /-- The keypad fails. -/
  | unanswered {i : Instruction} {cause : IoError} {keypad : κ} (reach : m.registers.pc.toNat ≤ 4094)
      (fetched : m.instruction? = some i) (failed : m.question i m.keypad = .error cause keypad) :
      Steps m (.error (.error (.io cause)) { m with keypad })
  /-- The operands leave the memory. -/
  | fault {i : Instruction} {f : Fault} {m' : Machine κ} (reach : m.registers.pc.toNat ≤ 4094)
      (fetched : m.instruction? = some i) (outside : ¬ m.Fits i) (memory : f.BeyondMemory) :
      Steps m (.error (.fault f) m')
  /-- The program counter is out of reach. -/
  | unreachable (reach : 4094 < m.registers.pc.toNat) :
      Steps m (.error (.fault (.addressRange m.registers.pc.toNat 2)) m)

theorem fetch_run (hpc : m.registers.pc.toNat ≤ 4094) :
    fetch m = .ok (m.memory.word m.registers.pc.toNat) m := by
  have hin : m.registers.pc.toNat + 2 ≤ 4096 := by omega
  simp only [fetch, bind_run, get_run, pc_run, Register.toNat_value, Memory.getWord_eq_word hin, check_ok]

theorem step_unreachable [Keypad κ] (hpc : 4094 < m.registers.pc.toNat) :
    step m = .error (.fault (.addressRange m.registers.pc.toNat 2)) m := by
  have hout : ¬ m.registers.pc.toNat + 2 ≤ 4096 := by omega
  have hword := Memory.getWord_eq_error (m := m.memory) hout
  simp only [step, fetch, bind_run, get_run, pc_run, Register.toNat_value, hword, check_error]

theorem step_unknown [Keypad κ] (hpc : m.registers.pc.toNat ≤ 4094) (hi : m.instruction? = none) :
    step m = .error (.error
      (.unknownOpcode (m.memory.word m.registers.pc.toNat) m.registers.pc.value)) m := by
  have hdecode : Instruction.decode (m.memory.word m.registers.pc.toNat) = none := hi
  simp only [step, bind_run, pc_run, fetch_run hpc, hdecode, throw_run]

/-- A step that has found its instruction carries it out and goes on from there. -/
theorem step_execute [Keypad κ] (hpc : m.registers.pc.toNat ≤ 4094) (hi : m.instruction? = some i) :
    step m = match execute i m with
      | .ok flow m' => .ok i (m'.proceed flow)
      | .error e m' => .error e m' := by
  have hdecode : Instruction.decode (m.memory.word m.registers.pc.toNat) = some i := hi
  simp only [step, bind_run, pc_run, fetch_run hpc, hdecode]
  cases execute i m with
  | error e m' => rfl
  | ok flow m' =>
    cases flow with
    | next => simp only [bind_run, advance_run, pure_run, proceed]
    | jumped => rfl

theorem step_done [Keypad κ] {a : KeyAnswer} {k : κ} (reach : m.registers.pc.toNat ≤ 4094)
    (fetched : m.instruction? = some i) (fits : m.Fits i) (accepted : m.refusal? i = none)
    (answered : m.question i m.keypad = .ok a k) :
    step m = .ok i ((m.after i a k).proceed i.flow) := by
  rw [step_execute reach fetched, execute_accepted (Instruction.inRange_of_decode fetched) fits accepted,
    answered]

theorem step_refused [Keypad κ] {e : Error} (reach : m.registers.pc.toNat ≤ 4094)
    (fetched : m.instruction? = some i) (fits : m.Fits i) (refused : m.refusal? i = some e) :
    step m = .error (.error e) (m.refused i) := by
  rw [step_execute reach fetched, execute_refused fits refused]

theorem step_unanswered [Keypad κ] {cause : IoError} {k : κ} (reach : m.registers.pc.toNat ≤ 4094)
    (fetched : m.instruction? = some i) (fits : m.Fits i) (accepted : m.refusal? i = none)
    (failed : m.question i m.keypad = .error cause k) :
    step m = .error (.error (.io cause)) { m with keypad := k } := by
  rw [step_execute reach fetched, execute_accepted (Instruction.inRange_of_decode fetched) fits accepted,
    failed]

theorem step_outside [Keypad κ] (reach : m.registers.pc.toNat ≤ 4094)
    (fetched : m.instruction? = some i) (outside : ¬ m.Fits i) :
    step m = .error (.fault (m.faultOf i)) (m.broken i) := by
  rw [step_execute reach fetched, execute_outside (Instruction.inRange_of_decode fetched) outside]

/-- **Every step has one of these outcomes.** -/
theorem steps_to [Keypad κ] : m.Steps (step m) := by
  by_cases hpc : m.registers.pc.toNat ≤ 4094
  · cases hi : m.instruction? with
    | none =>
      rw [step_unknown hpc hi]
      exact .unknown hpc hi
    | some i =>
      have hout := executes (m := m) (Instruction.inRange_of_decode hi)
      rw [step_execute hpc hi]
      cases hrun : execute i m with
      | ok flow m' =>
        rw [hrun] at hout
        cases hout with
        | done fits accepted answered => exact .done hpc hi fits accepted answered
      | error e m' =>
        rw [hrun] at hout
        cases hout with
        | refused href => exact .refused hpc hi href
        | unanswered failed => exact .unanswered hpc hi failed
        | fault outside memory => exact .fault hpc hi outside (memory (by omega))
  · rw [step_unreachable (Nat.lt_of_not_le hpc)]
    exact .unreachable (Nat.lt_of_not_le hpc)

theorem steps_of_run [Keypad κ] {r : EStateM.Result Stop (Machine κ) Instruction} (hrun : step m = r) :
    m.Steps r := hrun ▸ steps_to

theorem step_fetched [Keypad κ] {m' : Machine κ} (hrun : step m = .ok i m') :
    m.registers.pc.toNat ≤ 4094 ∧ m.instruction? = some i := by
  cases steps_of_run hrun with
  | done reach fetched fits accepted answered => exact ⟨reach, fetched⟩

end Chip8.Machine
