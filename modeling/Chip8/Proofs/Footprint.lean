import Chip8.Proofs.Invariant

/-!
# Proofs/Footprint — the parts of a machine that an instruction changes

What an instruction may change is said beside the instruction set, one part of the machine at a time:
`Instruction.Paints` for the screen, `Machine.Writes` for memory, `Instruction.SetsRegister` for the general
registers, and so on. `Machine.Footprint` collects them, and `step_footprint` says that a step stays inside,
whichever of its operands coincide. To see how often the keypad is asked, and for what, the machine is run on
a keypad that keeps a log of the questions (`Keypad.Logged`).
-/

namespace Chip8

/-! ## A keypad that is watched -/

/-- A question to a keypad. -/
inductive Keypad.Call where
  /-- Whether the key of this code is down. -/
  | isDown (code : Byte)
  /-- Which key goes down next. -/
  | awaitPress
  /-- What happened on the host. -/
  | refresh
deriving DecidableEq, Repr

/-- A keypad with the questions it was asked, oldest first. -/
structure Keypad.Logged (κ : Type) where
  /-- The keypad that answers. -/
  pad : κ
  /-- The questions. -/
  log : List Keypad.Call

namespace Keypad.Logged

variable {κ α : Type}

/-- Puts a question to the keypad and logs it, whether or not it is answered. -/
def ask (call : Keypad.Call) (question : EStateM IoError κ α) : EStateM IoError (Logged κ) α := fun p =>
  match question p.pad with
  | .ok a pad => .ok a ⟨pad, p.log ++ [call]⟩
  | .error cause pad => .error cause ⟨pad, p.log ++ [call]⟩

instance [Keypad κ] : Keypad (Logged κ) where
  isDown code := ask (.isDown code) (Keypad.isDown code)
  awaitPress := ask .awaitPress Keypad.awaitPress
  refresh := ask .refresh Keypad.refresh

theorem ask_eq_ok {call : Keypad.Call} {question : EStateM IoError κ α} {pad pad' : κ} {a : α}
    (h : question pad = .ok a pad') (log : List Keypad.Call) :
    ask call question ⟨pad, log⟩ = .ok a ⟨pad', log ++ [call]⟩ := by
  rw [ask, h]

end Keypad.Logged

/-! ## What an instruction may change -/

namespace Instruction

/-- It changes the picture or asks for a redraw. -/
def Paints : Instruction → Prop
  | clearScreen | draw _ _ _ => True
  | _ => False

/-- How far it moves the stack pointer. -/
def stackMove : Instruction → Int
  | call _ => 2
  | ret => -2
  | _ => 0

/-- How many words it takes from the random stream. -/
def randomWords : Instruction → Nat
  | random _ _ => 1
  | _ => 0

/-- It changes the index. Transfers do so in one dialect only. -/
def SetsIndex (dialect : Dialect) : Instruction → Prop
  | setIndex _ | addIndex _ | setGlyph _ => True
  | storeRegisters _ | loadRegisters _ => dialect.advancesIndex = true
  | _ => False

/-- It changes general register `r`. -/
def SetsRegister (r : Nat) : Instruction → Prop
  | setByte x _ | addByte x _ | move x _ | or x _ | and x _ | xor x _ | random x _ | getDelay x
  | awaitKey x => r = x
  | add x _ | sub x _ | subFrom x _ | shiftRight x _ | shiftLeft x _ => r = x ∨ r = 15
  | draw _ _ _ => r = 15
  | loadRegisters x => r ≤ x
  | _ => False

end Instruction

namespace Machine

variable {κ κ' : Type} {m m' : Machine κ} {i : Instruction}

/-- The addresses an instruction writes. A call writes only if the stack has room, the digits only if all of
them lie in memory, and registers as far as memory reaches. -/
def Writes (m : Machine κ) : Instruction → Nat → Prop
  | .call _, a =>
    m.registers.sp.toNat + 2 < 256 ∧ m.registers.sp.toNat ≤ a ∧ a < m.registers.sp.toNat + 2
  | .storeDecimal _, a => m.registers.index.toNat + 3 ≤ 4096 ∧
    m.registers.index.toNat ≤ a ∧ a < m.registers.index.toNat + 3
  | .storeRegisters x, a =>
    m.registers.index.toNat ≤ a ∧ a < m.registers.index.toNat + (x + 1) ∧ a < 4096
  | _, _ => False

/-- The questions an instruction puts to the keypad. -/
def calls (m : Machine κ) : Instruction → List Keypad.Call
  | .skipKeyDown x | .skipKeyUp x => [.isDown (m.keyCode x)]
  | .awaitKey _ => [.awaitPress]
  | _ => []

/-- The machine on another keypad, which may be of another kind. -/
def withKeypad (m : Machine κ) (keypad : κ') : Machine κ' where
  memory := m.memory
  registers := m.registers
  screen := m.screen
  random := m.random
  dialect := m.dialect
  keypad := keypad

/-- **What a step that carried out `i` may have changed** in getting from `m` to `m'`. -/
structure Footprint [Keypad κ] (m : Machine κ) (i : Instruction) (m' : Machine κ) : Prop where
  /-- Pixels, and the request to redraw. -/
  screen : ¬ i.Paints → m'.screen = m.screen
  /-- Memory. -/
  memory : ∀ a, ¬ m.Writes i a → m'.memory.byte a = m.memory.byte a
  /-- What a call writes lies in the stack. -/
  stack : ∀ nnn, i = .call nnn → ∀ a, m.Writes i a → 0x52 ≤ a ∧ a ≤ 0xfd
  /-- The stack pointer. -/
  sp : (m'.registers.sp.toNat : Int) = m.registers.sp.toNat + i.stackMove
  /-- The index. -/
  index : ¬ i.SetsIndex m.dialect → m'.registers.index = m.registers.index
  /-- The delay timer. -/
  delay : (∀ x, i ≠ .setDelay x) → m'.registers.delay = m.registers.delay
  /-- The sound timer. -/
  sound : (∀ x, i ≠ .setSound x) → m'.registers.sound = m.registers.sound
  /-- The random stream. -/
  random : m'.random = { m.random with drawn := m.random.drawn + i.randomWords }
  /-- The dialect stays. -/
  dialect : m'.dialect = m.dialect
  /-- The general registers, flags and all. -/
  v : ∀ r (h : r < 16), ¬ i.SetsRegister r → m'.registers.v[r] = m.registers.v[r]
  /-- On a keypad that is watched, the same step is seen to ask these questions and no other. -/
  keypad : ∀ log, step (m.withKeypad (Keypad.Logged.mk m.keypad log)) =
    .ok i (m'.withKeypad (Keypad.Logged.mk m'.keypad (log ++ m.calls i)))
  /-- The keys that are asked for exist. -/
  code : ∀ code, .isDown code ∈ m.calls i → code.toNat < 16

/-! ## Part by part -/

/-- An instruction that takes effect writes all of the addresses it says, and no other. -/
theorem byte_memoryAfter_of_not_writes {a : Nat} (hfits : m.Fits i) (hok : m.refusal? i = none)
    (h : ¬ m.Writes i a) : (m.memoryAfter i).byte a = m.memory.byte a := by
  cases i with
  | call nnn =>
    have hroom := refusal?_call_eq_none.1 hok
    exact Memory.byte_store_of_not_mem fun hin => h ⟨Nat.lt_of_not_le hroom, hin⟩
  | storeDecimal x => exact Memory.byte_store_of_not_mem fun hin => h ⟨hfits, hin⟩
  | storeRegisters x =>
    refine Memory.byte_store_of_not_mem fun hin => h ?_
    rw [Registers.length_block] at hin
    exact ⟨hin.1, hin.2, Nat.lt_of_lt_of_le hin.2 hfits⟩
  | _ => rfl

theorem screenAfter_of_not_paints (h : ¬ i.Paints) : m.screenAfter i = m.screen := by
  cases i with
  | clearScreen => exact absurd trivial h
  | draw x y n => exact absurd trivial h
  | _ => rfl

theorem randomAfter_eq :
    m.randomAfter i = { m.random with drawn := m.random.drawn + i.randomWords } := by
  cases i <;> rfl

/-- The stack pointer is a number of its width before and after, so it does not wrap. -/
theorem toNat_sp_registersAfter (hok : m.refusal? i = none) (answer : KeyAnswer) :
    ((m.registersAfter answer i).sp.toNat : Int) = m.registers.sp.toNat + i.stackMove := by
  have hlt : m.registers.sp.toNat < 256 := m.registers.sp.toNat_lt
  by_cases hcall : ∃ nnn, i = .call nnn
  · obtain ⟨nnn, rfl⟩ := hcall
    have hroom := refusal?_call_eq_none.1 hok
    have hnext : (Register.ofInt (m.registers.sp.toNat + 2) : Register 8).toNat =
        m.registers.sp.toNat + 2 :=
      Register.toNat_ofInt_natCast (n := m.registers.sp.toNat + 2) (by simp only [Register.modulus]; omega)
    exact congrArg Int.ofNat hnext
  by_cases hret : i = .ret
  · subst hret
    have hentry := refusal?_ret_eq_none.1 hok
    have hcast : (m.registers.sp.toNat : Int) - 2 = (m.registers.sp.toNat - 2 : Nat) := by omega
    show ((Register.ofInt (m.registers.sp.toNat - 2) : Register 8).toNat : Int) =
      m.registers.sp.toNat - 2
    rw [hcast, Register.toNat_ofInt_natCast (by simp only [Register.modulus]; omega)]
  · have hmove : i.stackMove = 0 := by
      cases i with
      | call nnn => exact absurd ⟨nnn, rfl⟩ hcall
      | ret => exact absurd rfl hret
      | _ => rfl
    rw [sp_registersAfter (fun nnn hi => hcall ⟨nnn, hi⟩) hret, hmove, Int.add_zero]

theorem index_registersAfter (h : ¬ i.SetsIndex m.dialect) (answer : KeyAnswer) :
    (m.registersAfter answer i).index = m.registers.index := by
  have hpass : ∀ (r : Registers) n, ¬ m.dialect.advancesIndex = true →
      (r.pass m.dialect n).index = r.index := fun r n hno => congrArg Registers.index (if_neg hno)
  cases i with
  | setIndex nnn => exact absurd trivial h
  | addIndex x => exact absurd trivial h
  | setGlyph x => exact absurd trivial h
  | storeRegisters x => exact hpass _ _ h
  | loadRegisters x => exact (hpass _ _ h).trans Registers.index_load
  | skipEqByte x nn | skipNeByte x nn | skipEq x y | skipNe x y | skipKeyDown x | skipKeyUp x =>
    exact Registers.index_skip
  | _ => rfl

theorem delay_registersAfter (h : ∀ x, i ≠ .setDelay x) (answer : KeyAnswer) :
    (m.registersAfter answer i).delay = m.registers.delay := by
  cases i with
  | setDelay x => exact absurd rfl (h x)
  | storeRegisters x => exact Registers.delay_pass
  | loadRegisters x => exact Registers.delay_pass.trans Registers.delay_load
  | skipEqByte x nn | skipNeByte x nn | skipEq x y | skipNe x y | skipKeyDown x | skipKeyUp x =>
    exact Registers.delay_skip
  | _ => rfl

theorem sound_registersAfter (h : ∀ x, i ≠ .setSound x) (answer : KeyAnswer) :
    (m.registersAfter answer i).sound = m.registers.sound := by
  cases i with
  | setSound x => exact absurd rfl (h x)
  | storeRegisters x => exact Registers.sound_pass
  | loadRegisters x => exact Registers.sound_pass.trans Registers.sound_load
  | skipEqByte x nn | skipNeByte x nn | skipEq x y | skipNe x y | skipKeyDown x | skipKeyUp x =>
    exact Registers.sound_skip
  | _ => rfl

/-- By cases on the instruction: it writes no general register, one, one and the flag register, or the first
few. -/
theorem getElem_registersAfter {r : Nat} (hr : r < 16) (h : ¬ i.SetsRegister r) (answer : KeyAnswer) :
    (m.registersAfter answer i).v[r] = m.registers.v[r] := by
  have hsame : ∀ {s s' : Registers}, s.v = s'.v → s.v[r] = s'.v[r] := fun hv => by rw [hv]
  cases i with
  | setByte x nn | addByte x nn | move x y | or x y | and x y | xor x y | random x nn | getDelay x
  | awaitKey x => exact Registers.getElem_put_of_ne hr h
  | add x y | sub x y | subFrom x y | shiftRight x y | shiftLeft x y =>
    obtain ⟨hx, hf⟩ := not_or.1 h
    exact (Registers.getElem_setFlag_of_ne hr hf).trans (Registers.getElem_put_of_ne hr hx)
  | draw x y n => exact Registers.getElem_setFlag_of_ne hr h
  | storeRegisters x => exact hsame Registers.v_pass
  | loadRegisters x =>
    have hno : ¬ r < (m.memory.block m.registers.index.toNat (x + 1)).length := by
      rw [Memory.length_block]
      exact fun hlt => h (Nat.le_of_lt_succ hlt)
    exact (hsame Registers.v_pass).trans ((Registers.getElem_load _ _ hr).trans (dif_neg hno))
  | skipEqByte x nn | skipNeByte x nn | skipEq x y | skipNe x y | skipKeyDown x | skipKeyUp x =>
    exact hsame Registers.v_skip
  | _ => rfl

/-! ## The keypad -/

theorem toNat_keyCode_lt (m : Machine κ) (x : Nat) : (m.keyCode x).toNat < 16 := by
  rw [keyCode, BitVec.toNat_and]
  exact Nat.lt_of_le_of_lt Nat.and_le_right (by decide)

theorem toNat_lt_of_mem_calls {code : Byte} (h : .isDown code ∈ m.calls i) : code.toNat < 16 := by
  cases i with
  | skipKeyDown x | skipKeyUp x =>
    obtain rfl : code = m.keyCode x := Keypad.Call.isDown.inj (List.mem_singleton.1 h)
    exact m.toNat_keyCode_lt x
  | awaitKey x => exact nomatch List.mem_singleton.1 h
  | _ => exact absurd h List.not_mem_nil

theorem fits_withKeypad {pad : κ'} : (m.withKeypad pad).Fits i ↔ m.Fits i := by
  cases i <;> exact Iff.rfl

theorem refusal?_withKeypad {pad : κ'} : (m.withKeypad pad).refusal? i = m.refusal? i := by
  cases i <;> rfl

theorem after_withKeypad {pad pad' : κ'} (answer : KeyAnswer) (keypad : κ) :
    ((m.withKeypad pad).after i answer pad').proceed i.flow =
      ((m.after i answer keypad).proceed i.flow).withKeypad pad' := by
  cases i <;> rfl

variable [Keypad κ]

/-- A watched keypad answers like the keypad that is watched. -/
theorem question_logged {answer : KeyAnswer} {pad pad' : κ} (h : m.question i pad = .ok answer pad')
    (log : List Keypad.Call) :
    (m.withKeypad (Keypad.Logged.mk pad log)).question i ⟨pad, log⟩ =
      .ok answer ⟨pad', log ++ m.calls i⟩ := by
  have hask : ∀ {α : Type} {f : α → KeyAnswer} {call : Keypad.Call} {question : EStateM IoError κ α},
      (f <$> question) pad = .ok answer pad' →
        (f <$> Keypad.Logged.ask call question) ⟨pad, log⟩ = .ok answer ⟨pad', log ++ [call]⟩ := by
    intro α f call question h
    obtain ⟨a, ha, rfl⟩ := map_eq_ok h
    rw [map_run, Keypad.Logged.ask_eq_ok ha]
  cases i with
  | skipKeyDown x | skipKeyUp x => exact hask h
  | awaitKey x => exact hask h
  | _ =>
    obtain ⟨rfl, rfl⟩ := EStateM.Result.ok.inj h
    exact congrArg (fun l => EStateM.Result.ok KeyAnswer.silence (Keypad.Logged.mk pad l))
      (List.append_nil log).symm

/-! ## All of it -/

/-- **A step stays inside the footprint of its instruction**, whichever of its operands coincide. -/
theorem step_footprint (hm : m.Reachable) (hrun : step m = .ok i m') : m.Footprint i m' := by
  have hentry := hm.regular.sp
  cases steps_of_run hrun with
  | @done _ answer keypad reach fetched fits accepted answered =>
    have hregisters : ∀ {β : Type} (f : Registers → β), (∀ r : Registers, f r.advance = f r) →
        f ((m.after i answer keypad).proceed i.flow).registers = f (m.registersAfter answer i) := by
      intro β f hf
      cases i.flow with
      | next => exact hf _
      | jumped => rfl
    exact {
      screen := fun h => by
        rw [screen_proceed]
        exact screenAfter_of_not_paints h
      memory := fun a h => by
        rw [memory_proceed]
        exact byte_memoryAfter_of_not_writes fits accepted h
      stack := by
        rintro nnn rfl a ⟨hroom, hlow, hhigh⟩
        have heven := hentry.even
        have hbase := hentry.low
        omega
      sp := by
        rw [hregisters Registers.sp fun _ => rfl]
        exact toNat_sp_registersAfter accepted answer
      index := fun h => (hregisters Registers.index fun _ => rfl).trans (index_registersAfter h answer)
      delay := fun h => (hregisters Registers.delay fun _ => rfl).trans (delay_registersAfter h answer)
      sound := fun h => (hregisters Registers.sound fun _ => rfl).trans (sound_registersAfter h answer)
      random := by
        have hrandom : ((m.after i answer keypad).proceed i.flow).random = m.randomAfter i := by
          cases i.flow <;> rfl
        rw [hrandom, randomAfter_eq]
      dialect := by cases i.flow <;> rfl
      v := fun r hr h => (hregisters (fun s => s.v[r]) fun _ => rfl).trans
        (getElem_registersAfter hr h answer)
      keypad := fun log => by
        have hask := question_logged answered log
        have hstep := step_done (m := m.withKeypad (Keypad.Logged.mk m.keypad log)) reach fetched
          (fits_withKeypad.2 fits) (refusal?_withKeypad.trans accepted) hask
        rw [keypad_proceed, hstep, after_withKeypad answer keypad]
        rfl
      code := fun code h => toNat_lt_of_mem_calls h }

/-- A wait for a key on a new machine: it asks once, and the key goes to the register that is named. -/
theorem step_footprint_awaitKey :
    let m : Machine ScriptedKeypad := .withOpcode 0xff0a ⟨[], [7]⟩
    ∃ m', step m = .ok (.awaitKey 15) m' ∧ (m'.registers.byte 15).toNat = 7 ∧
      m'.registers.v[0] = m.registers.v[0] ∧ m'.memory.byte 0x52 = m.memory.byte 0x52 ∧
      step (m.withKeypad (Keypad.Logged.mk m.keypad [])) =
        .ok (.awaitKey 15) (m'.withKeypad (Keypad.Logged.mk m'.keypad [.awaitPress])) := by
  intro m
  have hi : m.instruction? = some (.awaitKey 15) := instruction?_withOpcode _ _
  have hrun := step_done (m := m) (a := .pressed 7) (k := ⟨[], []⟩) (by decide) hi trivial rfl rfl
  have hwithin := step_footprint (reachable_withOpcode _ _) hrun
  exact ⟨_, hrun, rfl, hwithin.v 0 (by decide) (show ¬ (0 = 15) by decide), hwithin.memory 0x52 id,
    hwithin.keypad []⟩

end Machine

end Chip8
