import Chip8.Instruction.Decode
import Chip8.Proofs.Drawing
import Chip8.Proofs.Transfers

/-!
# Proofs/Effect — what an instruction does to a machine, part by part

An instruction puts at most one question to the keypad (`Machine.question`), may then be refused by the
call stack (`Machine.refusal?`), and otherwise changes memory, registers, screen and random stream as
functions of the machine and the answer. Three theorems say that `execute` is this and nothing else:

* `execute_refused` — the call stack refuses;
* `execute_accepted` — the instruction takes effect (`Machine.after`), or the keypad fails, and then nothing
  but the keypad has changed;
* `execute_outside` — its operands leave the memory (`Machine.Fits`): it stops with the fault
  `Machine.faultOf`, half done (`Machine.broken`).
-/

namespace Chip8

/-- What an instruction hears from the keypad. -/
inductive KeyAnswer where
  /-- It asks nothing. -/
  | silence
  /-- Whether the key in question is down. -/
  | down (held : Bool)
  /-- The code of the key that went down. -/
  | pressed (code : Byte)
deriving DecidableEq, Repr

namespace KeyAnswer

/-- Whether a key was reported to be down. -/
def isDown : KeyAnswer → Bool
  | down held => held
  | _ => false

/-- The code of the key that was reported. -/
def code : KeyAnswer → Byte
  | pressed code => code
  | _ => 0

end KeyAnswer

/-- Where the program goes on after an instruction that takes effect. -/
def Instruction.flow : Instruction → Flow
  | .ret | .jump _ | .call _ | .jumpOffset _ => .jumped
  | _ => .next

/-- The faults of memory: an access to bytes that do not all lie in it. -/
def Fault.BeyondMemory : Fault → Prop
  | addressRange a n => 4096 < a + n
  | _ => False

namespace Machine

variable {κ : Type}

/-! ## The parts of an effect -/

/-- The question an instruction puts to the keypad. -/
def question [Keypad κ] (m : Machine κ) : Instruction → EStateM IoError κ KeyAnswer
  | .skipKeyDown x | .skipKeyUp x => .down <$> Keypad.isDown (m.keyCode x)
  | .awaitKey _ => .pressed <$> Keypad.awaitPress
  | _ => pure .silence

/-- Why the call stack refuses an instruction: it is full when two more bytes would wrap the stack pointer
around, and empty below the end of the first entry. -/
def refusal? (m : Machine κ) : Instruction → Option Error
  | .call _ =>
    if 256 ≤ m.registers.sp.toNat + 2 then some (.stackOverflow m.registers.pc.value) else none
  | .ret => if m.registers.sp.toNat < 84 then some (.stackUnderflow m.registers.pc.value) else none
  | _ => none

/-- The machine that a refused instruction leaves. A refused call has written the stack pointer back. -/
def refused (m : Machine κ) : Instruction → Machine κ
  | .call _ => { m with registers := { m.registers with sp := .ofInt m.registers.sp.toNat } }
  | _ => m

/-- Memory after an instruction. -/
def memoryAfter (m : Machine κ) : Instruction → Memory
  | .call _ =>
    let back : Word := .ofNat 16 (m.registers.pc.toNat + 2)
    m.memory.store m.registers.sp.toNat [back.high, back.low]
  | .storeDecimal x => m.memory.store m.registers.index.toNat (decimalDigits (m.registers.byte x))
  | .storeRegisters x => m.memory.store m.registers.index.toNat (m.registers.block (x + 1))
  | _ => m.memory

/-- The sprite of `n` rows that the index addresses. -/
def sprite (m : Machine κ) (n : Byte) : Sprite := m.memory.block m.registers.index.toNat n.toNat

/-- The screen after an instruction. -/
def screenAfter (m : Machine κ) : Instruction → Screen screenWidth screenHeight
  | .clearScreen => m.screen.clear
  | .draw x y n => m.screen.overlay (m.registers.byte x).toNat (m.registers.byte y).toNat (m.sprite n)
  | _ => m.screen

/-- The random stream after an instruction. -/
def randomAfter (m : Machine κ) : Instruction → RandomStream
  | .random _ _ => m.random.next.2
  | _ => m.random

/-- The registers after an instruction that heard `answer`, before the program counter moves on to the
next one. -/
def registersAfter (m : Machine κ) (answer : KeyAnswer) : Instruction → Registers :=
  let r := m.registers
  fun
  | .clearScreen => r
  | .ret => { r with sp := .ofInt (r.sp.toNat - 2) }.goto (m.memory.word (r.sp.toNat - 2))
  | .jump nnn => r.goto nnn
  | .call nnn => { r with sp := .ofInt (r.sp.toNat + 2) }.goto nnn
  | .skipEqByte x nn => r.skip (r.byte x == nn)
  | .skipNeByte x nn => r.skip (r.byte x != nn)
  | .skipEq x y => r.skip (r.byte x == r.byte y)
  | .skipNe x y => r.skip (r.byte x != r.byte y)
  | .setByte x nn => r.put x nn.toNat
  | .addByte x nn => r.put x ((r.byte x).toNat + nn.toNat)
  | .move x y => r.put x (r.byte y).toNat
  | .or x y => r.put x (r.byte x ||| r.byte y).toNat
  | .and x y => r.put x (r.byte x &&& r.byte y).toNat
  | .xor x y => r.put x (r.byte x ^^^ r.byte y).toNat
  | .add x y =>
    (r.put x ((r.byte x).toNat + (r.byte y).toNat)).setFlag
      (decide (256 ≤ (r.byte x).toNat + (r.byte y).toNat))
  | .sub x y =>
    (r.put x ((r.byte x).toNat - (r.byte y).toNat)).setFlag (decide (r.byte y ≤ r.byte x))
  | .subFrom x y =>
    (r.put x ((r.byte y).toNat - (r.byte x).toNat)).setFlag (decide (r.byte x ≤ r.byte y))
  | .shiftRight x y =>
    (r.put x (m.shiftSource x y >>> 1).toNat).setFlag ((m.shiftSource x y).getLsbD 0)
  | .shiftLeft x y =>
    (r.put x (2 * (m.shiftSource x y).toNat)).setFlag (decide (256 ≤ 2 * (m.shiftSource x y).toNat))
  | .setIndex nnn => { r with index := .ofInt nnn.toNat }
  | .jumpOffset nnn => r.goto (.ofNat 16 (nnn.toNat + (r.byte 0).toNat))
  | .random x nn => r.put x (m.random.next.1 &&& nn).toNat
  | .draw x y n =>
    r.setFlag (m.screen.collides (r.byte x).toNat (r.byte y).toNat (m.sprite n))
  | .skipKeyDown _ => r.skip answer.isDown
  | .skipKeyUp _ => r.skip !answer.isDown
  | .getDelay x => r.put x r.delay.byte.toNat
  | .awaitKey x => r.put x answer.code.toNat
  | .setDelay x => { r with delay := .ofInt (r.byte x).toNat }
  | .setSound x => { r with sound := .ofInt (r.byte x).toNat }
  | .addIndex x => { r with index := .ofInt (r.index.toNat + (r.byte x).toNat) }
  | .setGlyph x => { r with index := .ofInt (Font.glyphAddr (r.byte x)) }
  | .storeDecimal _ => r
  | .storeRegisters x => r.pass m.dialect (x + 1)
  | .loadRegisters x => (r.load (m.memory.block r.index.toNat (x + 1))).pass m.dialect (x + 1)

/-- **The effect of an instruction** that heard `answer` from a keypad it left as `keypad`. -/
def after (m : Machine κ) (i : Instruction) (answer : KeyAnswer) (keypad : κ) : Machine κ where
  memory := m.memoryAfter i
  registers := m.registersAfter answer i
  screen := m.screenAfter i
  random := m.randomAfter i
  dialect := m.dialect
  keypad := keypad

/-- The bytes an instruction addresses through the index lie in memory, and the address after a call has
sixteen bits. -/
def Fits (m : Machine κ) : Instruction → Prop
  | .draw _ _ n => m.registers.index.toNat + n.toNat ≤ 4096
  | .storeDecimal _ => m.registers.index.toNat + 3 ≤ 4096
  | .storeRegisters x | .loadRegisters x => m.registers.index.toNat + (x + 1) ≤ 4096
  | .call _ => m.registers.pc.toNat + 2 < 65536
  | _ => True

/-- The fault of an instruction that does not fit. A transfer reports the first byte that is not there. -/
def faultOf (m : Machine κ) : Instruction → Fault
  | .draw _ _ n => .addressRange m.registers.index.toNat n.toNat
  | .storeDecimal _ => .addressRange m.registers.index.toNat 3
  | .storeRegisters _ | .loadRegisters _ =>
    .addressRange (m.registers.index.toNat + Memory.room m.registers.index.toNat) 1
  | _ => .arithmetic

/-- The machine that an instruction leaves that does not fit. A transfer has gone as far as memory reaches. -/
def broken (m : Machine κ) : Instruction → Machine κ
  | .storeRegisters _ =>
    let stored := m.registers.block (Memory.room m.registers.index.toNat)
    { m with memory := m.memory.store m.registers.index.toNat stored }
  | .loadRegisters _ =>
    let loaded := m.memory.block m.registers.index.toNat (Memory.room m.registers.index.toNat)
    { m with registers := m.registers.load loaded }
  | _ => m

/-! ## Execution has this effect -/

variable {m : Machine κ} {i : Instruction} {x y : Nat}

theorem refusal?_ret : m.refusal? .ret =
    if m.registers.sp.toNat < 84 then some (.stackUnderflow m.registers.pc.value) else none := rfl

theorem refusal?_call {nnn : Word} : m.refusal? (.call nnn) =
    if 256 ≤ m.registers.sp.toNat + 2 then some (.stackOverflow m.registers.pc.value) else none := rfl

theorem refusal?_ret_eq_none : m.refusal? .ret = none ↔ ¬ m.registers.sp.toNat < 84 := by
  rw [refusal?_ret]
  exact ⟨fun hok h => Option.some_ne_none _ ((if_pos h).symm.trans hok), fun h => if_neg h⟩

theorem refusal?_call_eq_none {nnn : Word} :
    m.refusal? (.call nnn) = none ↔ ¬ 256 ≤ m.registers.sp.toNat + 2 := by
  rw [refusal?_call]
  exact ⟨fun hok h => Option.some_ne_none _ ((if_pos h).symm.trans hok), fun h => if_neg h⟩

/-- The two refusals, and where they come from. -/
theorem refusal?_inv {e : Error} (h : m.refusal? i = some e) :
    (∃ nnn, i = .call nnn ∧ 256 ≤ m.registers.sp.toNat + 2 ∧ e = .stackOverflow m.registers.pc.value) ∨
      (i = .ret ∧ m.registers.sp.toNat < 84 ∧ e = .stackUnderflow m.registers.pc.value) := by
  cases i with
  | call nnn =>
    rw [refusal?_call] at h
    split at h
    · next hsp => exact .inl ⟨nnn, rfl, hsp, (Option.some.inj h).symm⟩
    · exact absurd h.symm (Option.some_ne_none e)
  | ret =>
    rw [refusal?_ret] at h
    split at h
    · next hsp => exact .inr ⟨rfl, hsp, (Option.some.inj h).symm⟩
    · exact absurd h.symm (Option.some_ne_none e)
  | _ => exact absurd h.symm (Option.some_ne_none e)

theorem overflowed_add (a b : Byte) :
    (Register.ofInt (a.toNat + b.toNat) : Register 8).overflowed = decide (256 ≤ a.toNat + b.toNat) := by
  rw [Register.overflowed_ofInt, decide_eq_decide, Register.modulus]
  omega

theorem overflowed_double (a : Byte) :
    (Register.ofInt (2 * a.toNat) : Register 8).overflowed = decide (256 ≤ 2 * a.toNat) := by
  rw [Register.overflowed_ofInt, decide_eq_decide, Register.modulus]
  omega

theorem not_borrowed_sub (a b : Byte) :
    (!(Register.ofInt (a.toNat - b.toNat) : Register 8).borrowed) = decide (b ≤ a) := by
  rw [Register.borrowed_ofInt, ← decide_not, decide_eq_decide, BitVec.le_def]
  omega

/-- A machine's screen is larger than any sprite an instruction can draw, so the drawing cannot fail. -/
theorem screen_draw_eq (vx vy : Byte) {rows : Sprite} (hlen : rows.length < 16)
    (s : Screen screenWidth screenHeight) : s.draw vx.toNat vy.toNat rows =
      .ok (s.collides vx.toNat vy.toNat rows, s.overlay vx.toNat vy.toNat rows) := by
  have hrows : rows.length ≤ screenHeight := Nat.le_of_lt (Nat.lt_trans hlen (by decide))
  have hx : vx.toNat < 256 := vx.isLt
  have hy : vy.toNat < 256 := vy.isLt
  have hfx : vx.toNat + 8 ≤ UInt64.size := by
    simp only [UInt64.size]
    omega
  have hfy : vy.toNat + screenHeight ≤ UInt64.size := by
    simp only [UInt64.size, screenHeight]
    omega
  exact Screen.draw_eq (by decide) hrows (by decide) hfx hfy s

/-- Drawing a sprite that lies in memory at the index. -/
theorem drawSprite_eq (vx vy : Byte) {rows : Sprite} (hlen : rows.length < 16)
    (hslice : m.memory.slice m.registers.index.toNat rows.length = .ok rows) :
    drawSprite vx vy rows.length m = .ok ()
      { m with
        screen := m.screen.overlay vx.toNat vy.toNat rows
        registers := m.registers.setFlag (m.screen.collides vx.toNat vy.toNat rows) } := by
  simp only [drawSprite, bind_run, get_run, index_run, Register.toNat_value, hslice, check_ok,
    screen_draw_eq vx vy hlen, set_run, setFlag_run]

/-- The same where the coordinates are those of an instruction. -/
theorem drawSprite_run {n : Byte} (hn : n.toNat < 16) (hfits : m.Fits (.draw x y n)) :
    drawSprite (m.registers.byte x) (m.registers.byte y) n.toNat m = .ok ()
      { m with
        screen := m.screenAfter (.draw x y n)
        registers := m.registersAfter .silence (.draw x y n) } := by
  have hlen : (m.sprite n).length = n.toNat := Memory.length_block
  have hslice : m.memory.slice m.registers.index.toNat n.toNat = .ok (m.sprite n) :=
    Memory.slice_eq_block hfits
  rw [← hlen] at hn hslice
  have hdraw := drawSprite_eq (m.registers.byte x) (m.registers.byte y) hn hslice
  rw [hlen] at hdraw
  exact hdraw

/-- **An instruction that fits and is not refused takes effect**, or stops at a keypad that fails. By cases on
the instruction: each is run operation by operation, and what is left is the definition of its effect. -/
theorem execute_accepted [Keypad κ] (hi : i.InRange) (hfits : m.Fits i) (hok : m.refusal? i = none) :
    execute i m = match m.question i m.keypad with
      | .ok answer keypad => .ok i.flow (m.after i answer keypad)
      | .error e keypad => .error (.error (.io e)) { m with keypad } := by
  cases i with
  | clearScreen => rfl
  | ret =>
    simp only [execute, bind_run, pop_run, if_neg (refusal?_ret_eq_none.1 hok), jump_run]
    rfl
  | jump nnn => exact jump_run nnn
  | call nnn =>
    have hsum : Word.sum m.registers.pc.value 2 = .ok (.ofNat 16 (m.registers.pc.toNat + 2)) :=
      Word.sum_eq_ok hfits
    simp only [execute, bind_run, pc_run, hsum, check_ok, push_run, if_neg (refusal?_call_eq_none.1 hok),
      jump_run]
    rfl
  | skipEqByte x nn =>
    simp only [execute, bind_run, readRegister_run hi, skipIf_run]
    rfl
  | skipNeByte x nn =>
    simp only [execute, bind_run, readRegister_run hi, skipIf_run]
    rfl
  | skipEq x y =>
    simp only [execute, bind_run, readRegister_run hi.1, readRegister_run hi.2, skipIf_run]
    rfl
  | skipNe x y =>
    simp only [execute, bind_run, readRegister_run hi.1, readRegister_run hi.2, skipIf_run]
    rfl
  | setByte x nn =>
    simp only [execute, bind_run, writeRegister_run hi, pure_run]
    rfl
  | addByte x nn =>
    have hnn : (nn.toNat : Int) < 65536 := by omega
    simp only [execute, bind_run, discard_run, addRegister_run hi hnn, pure_run]
    rfl
  | move x y => exact combine_run _ hi.1 hi.2
  | or x y => exact combine_run _ hi.1 hi.2
  | and x y => exact combine_run _ hi.1 hi.2
  | xor x y => exact combine_run _ hi.1 hi.2
  | add x y =>
    have hvy : ((m.registers.byte y).toNat : Int) < 65536 := by omega
    simp only [execute, bind_run, readRegister_run hi.2, addRegister_run hi.1 hvy, overflowed_add,
      setFlag_run, pure_run]
    rfl
  | sub x y =>
    have hvy : -((m.registers.byte y).toNat : Int) < 65536 := by omega
    simp only [execute, bind_run, readRegister_run hi.2, addRegister_run hi.1 hvy, ← Int.sub_eq_add_neg,
      not_borrowed_sub, setFlag_run, pure_run]
    rfl
  | subFrom x y =>
    have hlow : -65536 < ((m.registers.byte y).toNat : Int) - (m.registers.byte x).toNat := by omega
    have hhigh : ((m.registers.byte y).toNat : Int) - (m.registers.byte x).toNat < 65536 := by omega
    simp only [execute, bind_run, readRegister_run hi.1, readRegister_run hi.2,
      setRegister_run hi.1 hlow hhigh, not_borrowed_sub, setFlag_run, pure_run]
    rfl
  | shiftRight x y =>
    simp only [execute, bind_run, shiftOperand_run hi.1 hi.2, writeRegister_run hi.1, setFlag_run,
      pure_run]
    rfl
  | shiftLeft x y =>
    have hlow : -65536 < 2 * ((m.shiftSource x y).toNat : Int) := by omega
    have hhigh : 2 * ((m.shiftSource x y).toNat : Int) < 65536 := by omega
    simp only [execute, bind_run, shiftOperand_run hi.1 hi.2, setRegister_run hi.1 hlow hhigh,
      overflowed_double, setFlag_run, pure_run]
    rfl
  | setIndex nnn => rfl
  | jumpOffset nnn =>
    have hsum : nnn.sum (m.registers.byte 0).toNat =
        .ok (.ofNat 16 (nnn.toNat + (m.registers.byte 0).toNat)) := by
      have hnnn : nnn.toNat < 4096 := hi
      exact Word.sum_eq_ok (by omega)
    have hzero : 0 < 16 := by decide
    simp only [execute, bind_run, readRegister_run hzero, hsum, check_ok, jump_run]
    rfl
  | random x nn =>
    simp only [execute, bind_run, modifyGet_run, writeRegister_run hi, pure_run]
    rfl
  | draw x y n =>
    simp only [execute, bind_run, readRegister_run hi.1, readRegister_run hi.2.1,
      drawSprite_run hi.2.2 hfits, pure_run]
    rfl
  | skipKeyDown x =>
    simp only [execute, question, bind_run, isKeyDown_run hi, onKeypad, skipIf_run, Functor.map,
      EStateM.map]
    cases Keypad.isDown (m.keyCode x) m.keypad <;> rfl
  | skipKeyUp x =>
    simp only [execute, question, bind_run, isKeyDown_run hi, onKeypad, skipIf_run, Functor.map,
      EStateM.map]
    cases Keypad.isDown (m.keyCode x) m.keypad <;> rfl
  | getDelay x =>
    simp only [execute, bind_run, get_run, writeRegister_run hi, pure_run]
    rfl
  | awaitKey x =>
    simp only [execute, question, bind_run, onKeypad, writeRegister_run hi, pure_run, Functor.map,
      EStateM.map]
    cases Keypad.awaitPress m.keypad <;> rfl
  | setDelay x =>
    simp only [execute, bind_run, readRegister_run hi, pure_run]
    rfl
  | setSound x =>
    simp only [execute, bind_run, readRegister_run hi, pure_run]
    rfl
  | addIndex x =>
    have hvx : ((m.registers.byte x).toNat : Int) < 65536 := by omega
    simp only [execute, bind_run, readRegister_run hi, addIndex_run hvx, pure_run]
    rfl
  | setGlyph x =>
    simp only [execute, bind_run, readRegister_run hi, setIndex_run, pure_run]
    rfl
  | storeDecimal x =>
    have hwrite : m.memory.write m.registers.index.value.toNat (decimalDigits (m.registers.byte x)) =
        .ok (m.memory.store m.registers.index.toNat (decimalDigits (m.registers.byte x))) :=
      Memory.write_eq_store hfits
    simp only [execute, bind_run, readRegister_run hi, index_run]
    rw [modifyMemory_run hwrite]
    rfl
  | storeRegisters x =>
    have hx : x + 1 ≤ 16 := hi
    have hpass : x + 1 < 65536 := by omega
    simp only [execute, bind_run, index_run, storeRegisters_run hx (.inr hfits), passBlock_run hpass,
      pure_run]
    rfl
  | loadRegisters x =>
    have hx : x + 1 ≤ 16 := hi
    have hpass : x + 1 < 65536 := by omega
    simp only [execute, bind_run, index_run, loadRegisters_run hx (.inr hfits), passBlock_run hpass,
      pure_run]
    rfl

theorem execute_refused [Keypad κ] {e : Error} (hfits : m.Fits i) (hno : m.refusal? i = some e) :
    execute i m = .error (.error e) (m.refused i) := by
  rcases refusal?_inv hno with ⟨nnn, rfl, hsp, rfl⟩ | ⟨rfl, hsp, rfl⟩
  · have hsum : Word.sum m.registers.pc.value 2 = .ok (.ofNat 16 (m.registers.pc.toNat + 2)) :=
      Word.sum_eq_ok hfits
    simp only [execute, bind_run, pc_run, hsum, check_ok, push_run, if_pos hsp]
    rfl
  · simp only [execute, bind_run, pop_run, if_pos hsp]
    rfl

/-- An instruction whose operands leave the memory stops with its fault, and leaves what it has done so far. -/
theorem execute_outside [Keypad κ] (hi : i.InRange) (hout : ¬ m.Fits i) :
    execute i m = .error (.fault (m.faultOf i)) (m.broken i) := by
  cases i with
  | call nnn =>
    have hsum : Word.sum m.registers.pc.value 2 = .error .arithmetic := if_neg hout
    simp only [execute, bind_run, pc_run, hsum, check_error]
    rfl
  | draw x y n =>
    have hout : ¬ m.registers.index.toNat + n.toNat ≤ 4096 := hout
    simp only [execute, drawSprite, bind_run, readRegister_run hi.1, readRegister_run hi.2.1, get_run,
      index_run, Register.toNat_value, Memory.slice_eq_error hout, check_error]
    rfl
  | storeDecimal x =>
    have hout : ¬ m.registers.index.toNat + 3 ≤ 4096 := hout
    simp only [execute, bind_run, readRegister_run hi, index_run]
    rw [modifyMemory_fault (Memory.write_eq_error hout)]
    rfl
  | storeRegisters x =>
    have hx : x + 1 ≤ 16 := hi
    have hrun := storeRegisters_fault (m := m) hx (Nat.succ_pos x) (Nat.lt_of_not_le hout)
    simp only [execute, bind_run, index_run, hrun]
    rfl
  | loadRegisters x =>
    have hx : x + 1 ≤ 16 := hi
    have hrun := loadRegisters_fault (m := m) hx (Nat.succ_pos x) (Nat.lt_of_not_le hout)
    simp only [execute, bind_run, index_run, hrun]
    rfl
  | _ => exact absurd trivial hout

theorem beyondMemory_faultOf (hout : ¬ m.Fits i) (hpc : m.registers.pc.toNat + 2 < 65536) :
    (m.faultOf i).BeyondMemory := by
  have hroom : ∀ a, 4096 < a + Memory.room a + 1 := fun a => by
    rw [Memory.room]
    omega
  cases i with
  | call nnn => exact absurd hpc hout
  | draw x y n => exact Nat.lt_of_not_le hout
  | storeDecimal x => exact Nat.lt_of_not_le hout
  | storeRegisters x => exact hroom _
  | loadRegisters x => exact hroom _
  | _ => exact absurd trivial hout

/-- **An instruction whose operands leave the memory ends the run**, with a fault of memory unless it is a
call at the very top of the address space. -/
theorem execute_fault [Keypad κ] (hi : i.InRange) (hout : ¬ m.Fits i) :
    ∃ f m', execute i m = .error (.fault f) m' ∧
      (m.registers.pc.toNat + 2 < 65536 → f.BeyondMemory) :=
  ⟨_, _, execute_outside hi hout, beyondMemory_faultOf hout⟩

/-! ## What an instruction leaves alone -/

/-- The addresses at which an instruction stores digits or registers. -/
def Stores (m : Machine κ) : Instruction → Nat → Prop
  | .storeDecimal _, a => m.registers.index.toNat ≤ a ∧ a < m.registers.index.toNat + 3
  | .storeRegisters x, a => m.registers.index.toNat ≤ a ∧ a < m.registers.index.toNat + (x + 1)
  | _, _ => False

/-- Only calls and stores write to memory, and stores only where they say. -/
theorem byte_memoryAfter {a : Nat} (hcall : ∀ nnn, i ≠ .call nnn) (h : ¬ m.Stores i a) :
    (m.memoryAfter i).byte a = m.memory.byte a := by
  cases i with
  | call nnn => exact absurd rfl (hcall nnn)
  | storeDecimal x => exact Memory.byte_store_of_not_mem h
  | storeRegisters x => exact Memory.byte_store_of_not_mem (by rw [Registers.length_block]; exact h)
  | _ => rfl

/-- Only calls and returns move the stack pointer. -/
theorem sp_registersAfter (hcall : ∀ nnn, i ≠ .call nnn) (hret : i ≠ .ret) (answer : KeyAnswer) :
    (m.registersAfter answer i).sp = m.registers.sp := by
  cases i with
  | call nnn => exact absurd rfl (hcall nnn)
  | ret => exact absurd rfl hret
  | skipEqByte x nn => exact Registers.sp_skip
  | skipNeByte x nn => exact Registers.sp_skip
  | skipEq x y => exact Registers.sp_skip
  | skipNe x y => exact Registers.sp_skip
  | skipKeyDown x => exact Registers.sp_skip
  | skipKeyUp x => exact Registers.sp_skip
  | storeRegisters x => exact Registers.sp_pass
  | loadRegisters x => exact Registers.sp_pass.trans Registers.sp_load
  | _ => rfl

end Machine

end Chip8
