import Chip8.Proofs.Outcomes

/-!
# Proofs/Dependence — the parts of a machine that an instruction goes by

Machines `Agree` when they do on what steers a program: the registers other than the timers, and the pixels.
An instruction goes by these, by the addresses it reads (`Machine.Loads`), and by at most one thing more, which
`Machine.SameInputs` names. Two machines, perhaps with keypads of different kinds, that are alike in all of
this take the instruction to machines that agree, and whatever else was equal between them stays so
(`Machine.Tandem`). `Agree.lockstep` says it of steps: they come to the same, and leave machines in tandem.
-/

namespace Chip8

/-! ## Registers -/

/-- The register files are equal but for the timers. -/
structure Registers.Agree (r₁ r₂ : Registers) : Prop where
  v : r₁.v = r₂.v
  index : r₁.index = r₂.index
  pc : r₁.pc = r₂.pc
  sp : r₁.sp = r₂.sp

namespace Registers.Agree

variable {r₁ r₂ : Registers} {x : Nat}

theorem of_eq (h : r₁ = r₂) : r₁.Agree r₂ := by
  subst h
  exact ⟨rfl, rfl, rfl, rfl⟩

theorem symm (h : r₁.Agree r₂) : r₂.Agree r₁ := ⟨h.v.symm, h.index.symm, h.pc.symm, h.sp.symm⟩

/-- With the timers equal too, the register files are equal. -/
theorem eq (h : r₁.Agree r₂) (hdelay : r₁.delay = r₂.delay) (hsound : r₁.sound = r₂.sound) : r₁ = r₂ := by
  obtain ⟨v, index, pc, sp, delay, sound⟩ := r₁
  obtain ⟨rfl, rfl, rfl, rfl⟩ := h
  obtain rfl : delay = r₂.delay := hdelay
  obtain rfl : sound = r₂.sound := hsound
  rfl

theorem byte (h : r₁.Agree r₂) : r₁.byte = r₂.byte := by
  funext x
  rw [Registers.byte, Registers.byte, h.v]

theorem block (h : r₁.Agree r₂) (n : Nat) : r₁.block n = r₂.block n := by
  rw [Registers.block, Registers.block, h.byte]

theorem put (h : r₁.Agree r₂) {n₁ n₂ : Int} (hn : n₁ = n₂) : (r₁.put x n₁).Agree (r₂.put x n₂) := by
  subst hn
  exact { h with v := congrArg (fun v : Vector (Register 8) 16 => v.setIfInBounds x (.ofInt n₁)) h.v }

theorem setFlag (h : r₁.Agree r₂) {b₁ b₂ : Bool} (hb : b₁ = b₂) :
    (r₁.setFlag b₁).Agree (r₂.setFlag b₂) := by
  subst hb
  rw [setFlag_eq_put, setFlag_eq_put]
  exact h.put rfl

theorem goto (h : r₁.Agree r₂) {a₁ a₂ : Word} (ha : a₁ = a₂) : (r₁.goto a₁).Agree (r₂.goto a₂) := by
  subst ha
  exact { h with pc := rfl }

theorem advance (h : r₁.Agree r₂) : r₁.advance.Agree r₂.advance :=
  { h with pc := congrArg (fun pc : Register 16 => Register.ofInt (pc.toNat + 2)) h.pc }

theorem skip (h : r₁.Agree r₂) {c₁ c₂ : Bool} (hc : c₁ = c₂) : (r₁.skip c₁).Agree (r₂.skip c₂) := by
  subst hc
  cases c₁ with
  | false => exact h
  | true => exact h.advance

theorem setIndex (h : r₁.Agree r₂) {n₁ n₂ : Int} (hn : n₁ = n₂) :
    Agree { r₁ with index := .ofInt n₁ } { r₂ with index := .ofInt n₂ } := by
  subst hn
  exact { h with index := rfl }

theorem setSp (h : r₁.Agree r₂) {n₁ n₂ : Int} (hn : n₁ = n₂) :
    Agree { r₁ with sp := .ofInt n₁ } { r₂ with sp := .ofInt n₂ } := by
  subst hn
  exact { h with sp := rfl }

theorem pass (h : r₁.Agree r₂) {d₁ d₂ : Dialect} (hd : d₁.advancesIndex = d₂.advancesIndex) (n : Nat) :
    (r₁.pass d₁ n).Agree (r₂.pass d₂ n) := by
  rw [Registers.pass, Registers.pass, hd]
  split
  · exact h.setIndex (by rw [h.index])
  · exact h

theorem load (h : r₁.Agree r₂) {data₁ data₂ : List Byte} (hdata : data₁ = data₂) :
    (r₁.load data₁).Agree (r₂.load data₂) := by
  subst hdata
  have hv : (r₁.load data₁).v = (r₂.load data₁).v := by simp only [Registers.load, h.v]
  rw [Registers.load, Registers.load] at hv ⊢
  exact { h with v := hv }

end Registers.Agree

/-! ## Memory and screen -/

namespace Memory

variable {m₁ m₂ : Memory} {a : Nat}

theorem word_congr (high : m₁.byte a = m₂.byte a) (low : m₁.byte (a + 1) = m₂.byte (a + 1)) :
    m₁.word a = m₂.word a := by rw [word, word, high, low]

/-- A write makes its range equal, and leaves equal what was. -/
theorem byte_store_congr {data : List Byte} {i : Nat}
    (h : m₁.byte i = m₂.byte i ∨ (a ≤ i ∧ i < a + data.length)) :
    (m₁.store a data).byte i = (m₂.store a data).byte i := by
  by_cases hin : a ≤ i ∧ i < a + data.length
  · by_cases hi : i < 4096
    · rw [← getElem_bytes hi, ← getElem_bytes hi, store, store, getElem_put, getElem_put, dif_pos hin,
        dif_pos hin]
    · rw [byte_of_le (Nat.le_of_not_lt hi), byte_of_le (Nat.le_of_not_lt hi)]
  · rw [byte_store_of_not_mem hin, byte_store_of_not_mem hin]
    exact h.resolve_right hin

end Memory

namespace Screen

variable {w h : Nat} {s₁ s₂ : Screen w h} {vx vy : Nat} {sprite : Sprite}

theorem eq_of_pixels (hpixels : s₁.pixels = s₂.pixels) (hdirty : s₁.dirty = s₂.dirty) : s₁ = s₂ := by
  obtain ⟨pixels, dirty⟩ := s₁
  obtain rfl : pixels = s₂.pixels := hpixels
  obtain rfl : dirty = s₂.dirty := hdirty
  rfl

theorem overlay_congr (hpixels : s₁.pixels = s₂.pixels) :
    s₁.overlay vx vy sprite = s₂.overlay vx vy sprite := by
  simp only [overlay, lit, hpixels]

theorem collides_congr (hpixels : s₁.pixels = s₂.pixels) :
    s₁.collides vx vy sprite = s₂.collides vx vy sprite := by
  simp only [collides, lit, hpixels]

end Screen

namespace Machine

variable {κ₁ κ₂ : Type} {m₁ m₁' : Machine κ₁} {m₂ m₂' : Machine κ₂} {i : Instruction}

/-! ## Two machines -/

/-- The machines agree on what steers a program. -/
structure Agree (m₁ : Machine κ₁) (m₂ : Machine κ₂) : Prop where
  registers : m₁.registers.Agree m₂.registers
  pixels : m₁.screen.pixels = m₂.screen.pixels

/-- What an instruction goes by besides registers, pixels, memory and keypad: a shift by its operand, which the
dialect chooses, a random byte by the stream, a transfer by the dialect, and one instruction by the delay
timer. -/
def SameInputs (m₁ : Machine κ₁) (m₂ : Machine κ₂) : Instruction → Prop
  | .shiftRight x y | .shiftLeft x y => m₁.shiftSource x y = m₂.shiftSource x y
  | .random _ _ => m₁.random.next.1 = m₂.random.next.1
  | .getDelay _ => m₁.registers.delay = m₂.registers.delay
  | .storeRegisters _ | .loadRegisters _ => m₁.dialect.advancesIndex = m₂.dialect.advancesIndex
  | _ => True

/-- Two machines go over to two others: these agree, they are equal on the addresses in `W`, and where the
machines were equal before, they still are. -/
structure Tandem (W : Nat → Prop) (m₁ : Machine κ₁) (m₂ : Machine κ₂) (m₁' : Machine κ₁) (m₂' : Machine κ₂) :
    Prop where
  agree : m₁'.Agree m₂'
  byte : ∀ a, m₁.memory.byte a = m₂.memory.byte a ∨ W a → m₁'.memory.byte a = m₂'.memory.byte a
  dirty : m₁.screen.dirty = m₂.screen.dirty → m₁'.screen.dirty = m₂'.screen.dirty
  delay : m₁.registers.delay = m₂.registers.delay → m₁'.registers.delay = m₂'.registers.delay
  sound : m₁.registers.sound = m₂.registers.sound → m₁'.registers.sound = m₂'.registers.sound
  random : m₁.random = m₂.random → m₁'.random = m₂'.random
  dialect : m₁.dialect = m₂.dialect → m₁'.dialect = m₂'.dialect

theorem Tandem.mono {W W' : Nat → Prop} (h : Tandem W m₁ m₂ m₁' m₂') (hW : ∀ a, W' a → W a) :
    Tandem W' m₁ m₂ m₁' m₂' :=
  { h with byte := fun a heq => h.byte a (heq.imp_right (hW a)) }

theorem Tandem.proceed {W : Nat → Prop} (h : Tandem W m₁ m₂ m₁' m₂') (flow : Flow) :
    Tandem W m₁ m₂ (m₁'.proceed flow) (m₂'.proceed flow) := by
  cases flow with
  | next => exact { h with agree := ⟨h.agree.registers.advance, h.agree.pixels⟩ }
  | jumped => exact h

theorem Tandem.registers {W : Nat → Prop} (h : Tandem W m₁ m₂ m₁' m₂') (heq : m₁.registers = m₂.registers) :
    m₁'.registers = m₂'.registers :=
  h.agree.registers.eq (h.delay (congrArg Registers.delay heq)) (h.sound (congrArg Registers.sound heq))

theorem Tandem.screen {W : Nat → Prop} (h : Tandem W m₁ m₂ m₁' m₂') (heq : m₁.screen = m₂.screen) :
    m₁'.screen = m₂'.screen :=
  Screen.eq_of_pixels h.agree.pixels (h.dirty (congrArg Screen.dirty heq))

theorem Tandem.memory {W : Nat → Prop} (h : Tandem W m₁ m₂ m₁' m₂') (heq : m₁.memory = m₂.memory) :
    m₁'.memory = m₂'.memory :=
  Memory.ext_byte fun a => h.byte a (.inl (by rw [heq]))

namespace Agree

theorem symm (h : m₁.Agree m₂) : m₂.Agree m₁ := ⟨h.registers.symm, h.pixels.symm⟩

/-! ## One instruction -/

theorem fits (h : m₁.Agree m₂) : m₁.Fits i ↔ m₂.Fits i := by
  cases i <;> simp only [Fits, h.registers.index, h.registers.pc]

theorem refusal? (h : m₁.Agree m₂) : m₁.refusal? i = m₂.refusal? i := by
  cases i with
  | call nnn => rw [refusal?_call, refusal?_call, h.registers.sp, h.registers.pc]
  | ret => rw [refusal?_ret, refusal?_ret, h.registers.sp, h.registers.pc]
  | _ => rfl

theorem faultOf (h : m₁.Agree m₂) : m₁.faultOf i = m₂.faultOf i := by
  cases i <;> simp only [Machine.faultOf, h.registers.index]

theorem calls (h : m₁.Agree m₂) : m₁.calls i = m₂.calls i := by
  cases i <;> simp only [Machine.calls, keyCode, h.registers.byte]

/-- The other inputs are the same if the dialects and the random streams are, and the delay timers where one
is read. -/
theorem sameInputs (h : m₁.Agree m₂) (dialect : m₁.dialect = m₂.dialect) (random : m₁.random = m₂.random)
    (delay : (∃ x, i = .getDelay x) → m₁.registers.delay = m₂.registers.delay) : SameInputs m₁ m₂ i := by
  cases i with
  | shiftRight x y | shiftLeft x y => simp only [SameInputs, shiftSource, dialect, h.registers.byte]
  | random x nn => simp only [SameInputs, random]
  | getDelay x => exact delay ⟨x, rfl⟩
  | storeRegisters x | loadRegisters x => simp only [SameInputs, dialect]
  | _ => trivial

/-- Machines that agree and have the same bytes where a sprite lies have the same sprite. -/
theorem sprite (h : m₁.Agree m₂) {n : Byte}
    (loads : ∀ a, m₁.registers.index.toNat ≤ a → a < m₁.registers.index.toNat + n.toNat →
      m₁.memory.byte a = m₂.memory.byte a) : m₁.sprite n = m₂.sprite n := by
  rw [Machine.sprite, Machine.sprite, ← h.registers.index]
  exact Memory.block_congr loads

/-- By cases on the instruction: each is a few updates, and each update keeps agreement if what it writes is
the same. -/
theorem registersAfter (h : m₁.Agree m₂) (hfits : m₁.Fits i) (hok : m₁.refusal? i = none)
    (loads : ∀ a, m₁.Loads i a → m₁.memory.byte a = m₂.memory.byte a) (inputs : SameInputs m₁ m₂ i)
    (answer : KeyAnswer) : (m₁.registersAfter answer i).Agree (m₂.registersAfter answer i) := by
  have hr := h.registers
  have hbyte := hr.byte
  cases i with
  | clearScreen | storeDecimal x => exact hr
  | ret =>
    have hsp : 84 ≤ m₁.registers.sp.toNat := Nat.le_of_not_lt (refusal?_ret_eq_none.1 hok)
    have hword : m₁.memory.word (m₁.registers.sp.toNat - 2) = m₂.memory.word (m₂.registers.sp.toNat - 2) := by
      rw [← hr.sp]
      exact Memory.word_congr (loads _ ⟨hsp, by omega, by omega⟩) (loads _ ⟨hsp, by omega, by omega⟩)
    exact (hr.setSp (by rw [hr.sp])).goto hword
  | jump nnn => exact hr.goto rfl
  | call nnn => exact (hr.setSp (by rw [hr.sp])).goto rfl
  | jumpOffset nnn => exact hr.goto (by rw [hbyte])
  | skipEqByte x nn | skipNeByte x nn | skipEq x y | skipNe x y => exact hr.skip (by rw [hbyte])
  | skipKeyDown x | skipKeyUp x => exact hr.skip rfl
  | setByte x nn | awaitKey x => exact hr.put rfl
  | addByte x nn | move x y | or x y | and x y | xor x y => exact hr.put (by rw [hbyte])
  | add x y | sub x y | subFrom x y => exact (hr.put (by rw [hbyte])).setFlag (by rw [hbyte])
  | shiftRight x y | shiftLeft x y =>
    have hsource : m₁.shiftSource x y = m₂.shiftSource x y := inputs
    exact (hr.put (by rw [hsource])).setFlag (by rw [hsource])
  | random x nn =>
    have hdrawn : m₁.random.next.1 = m₂.random.next.1 := inputs
    exact hr.put (by rw [hdrawn])
  | getDelay x =>
    have hdelay : m₁.registers.delay = m₂.registers.delay := inputs
    exact hr.put (by rw [hdelay])
  | draw x y n =>
    have hsprite := h.sprite fun a hlow hhigh => loads a ⟨hfits, hlow, hhigh⟩
    exact hr.setFlag (by rw [hbyte, hsprite, Screen.collides_congr h.pixels])
  | setIndex nnn => exact hr.setIndex rfl
  | addIndex x => exact hr.setIndex (by rw [hbyte, hr.index])
  | setGlyph x => exact hr.setIndex (by rw [hbyte])
  | setDelay x | setSound x => exact { hr with }
  | storeRegisters x => exact hr.pass inputs _
  | loadRegisters x =>
    have hblock : m₁.memory.block m₁.registers.index.toNat (x + 1) =
        m₂.memory.block m₂.registers.index.toNat (x + 1) := by
      rw [← hr.index]
      exact Memory.block_congr fun a hlow hhigh => loads a ⟨hlow, hhigh, Nat.lt_of_lt_of_le hhigh hfits⟩
    exact (hr.load hblock).pass inputs _

theorem screenAfter (h : m₁.Agree m₂) (hfits : m₁.Fits i)
    (loads : ∀ a, m₁.Loads i a → m₁.memory.byte a = m₂.memory.byte a) :
    (m₁.screenAfter i).pixels = (m₂.screenAfter i).pixels ∧
      (m₁.screen.dirty = m₂.screen.dirty → (m₁.screenAfter i).dirty = (m₂.screenAfter i).dirty) := by
  cases i with
  | clearScreen => exact ⟨rfl, fun _ => rfl⟩
  | draw x y n =>
    have hsprite := h.sprite fun a hlow hhigh => loads a ⟨hfits, hlow, hhigh⟩
    have hscreen : m₁.screenAfter (.draw x y n) = m₂.screenAfter (.draw x y n) := by
      simp only [Machine.screenAfter, h.registers.byte, hsprite, Screen.overlay_congr h.pixels]
    exact ⟨congrArg Screen.pixels hscreen, fun _ => congrArg Screen.dirty hscreen⟩
  | _ => exact ⟨h.pixels, id⟩

theorem byte_memoryAfter (h : m₁.Agree m₂) {a : Nat}
    (heq : m₁.memory.byte a = m₂.memory.byte a ∨ m₁.Writes i a) :
    (m₁.memoryAfter i).byte a = (m₂.memoryAfter i).byte a := by
  have hr := h.registers
  cases i with
  | call nnn =>
    simp only [memoryAfter, ← hr.sp, ← hr.pc]
    exact Memory.byte_store_congr (heq.imp_right fun hw => hw.2)
  | storeDecimal x =>
    simp only [memoryAfter, ← hr.index, ← hr.byte]
    exact Memory.byte_store_congr (heq.imp_right fun hw => hw.2)
  | storeRegisters x =>
    simp only [memoryAfter, ← hr.index, ← hr.block]
    refine Memory.byte_store_congr (heq.imp_right fun hw => ?_)
    rw [Registers.length_block]
    exact ⟨hw.1, hw.2.1⟩
  | _ => exact heq.resolve_right id

theorem delay_registersAfter (h : m₁.Agree m₂) (heq : m₁.registers.delay = m₂.registers.delay)
    (answer : KeyAnswer) :
    (m₁.registersAfter answer i).delay = (m₂.registersAfter answer i).delay := by
  by_cases hset : ∃ x, i = .setDelay x
  · obtain ⟨x, rfl⟩ := hset
    simp only [Machine.registersAfter, h.registers.byte]
  · have hno : ∀ x, i ≠ .setDelay x := fun x hx => hset ⟨x, hx⟩
    rw [Machine.delay_registersAfter hno, Machine.delay_registersAfter hno, heq]

theorem sound_registersAfter (h : m₁.Agree m₂) (heq : m₁.registers.sound = m₂.registers.sound)
    (answer : KeyAnswer) :
    (m₁.registersAfter answer i).sound = (m₂.registersAfter answer i).sound := by
  by_cases hset : ∃ x, i = .setSound x
  · obtain ⟨x, rfl⟩ := hset
    simp only [Machine.registersAfter, h.registers.byte]
  · have hno : ∀ x, i ≠ .setSound x := fun x hx => hset ⟨x, hx⟩
    rw [Machine.sound_registersAfter hno, Machine.sound_registersAfter hno, heq]

/-- **An instruction that takes effect goes by what is listed, and by nothing else.** -/
theorem after (h : m₁.Agree m₂) (hfits : m₁.Fits i) (hok : m₁.refusal? i = none)
    (loads : ∀ a, m₁.Loads i a → m₁.memory.byte a = m₂.memory.byte a) (inputs : SameInputs m₁ m₂ i)
    (answer : KeyAnswer) (k₁ : κ₁) (k₂ : κ₂) :
    Tandem (m₁.Writes i) m₁ m₂ (m₁.after i answer k₁) (m₂.after i answer k₂) where
  agree := ⟨h.registersAfter hfits hok loads inputs answer, (h.screenAfter hfits loads).1⟩
  byte a heq := h.byte_memoryAfter heq
  dirty := (h.screenAfter hfits loads).2
  delay heq := h.delay_registersAfter heq answer
  sound heq := h.sound_registersAfter heq answer
  random heq := by
    have hafter : m₁.randomAfter i = m₂.randomAfter i := by rw [randomAfter_eq, randomAfter_eq, heq]
    exact hafter
  dialect := id

/-! ## An instruction that does not take effect -/

theorem stay (h : m₁.Agree m₂) (k₁ : κ₁) (k₂ : κ₂) :
    Tandem (fun _ => False) m₁ m₂ { m₁ with keypad := k₁ } { m₂ with keypad := k₂ } where
  agree := ⟨h.registers, h.pixels⟩
  byte _ heq := heq.resolve_right id
  dirty := id
  delay := id
  sound := id
  random := id
  dialect := id

theorem withRegisters (h : m₁.Agree m₂) {r₁ r₂ : Registers} (hr : r₁.Agree r₂)
    (hdelay : m₁.registers.delay = m₂.registers.delay → r₁.delay = r₂.delay)
    (hsound : m₁.registers.sound = m₂.registers.sound → r₁.sound = r₂.sound) :
    Tandem (fun _ => False) m₁ m₂ { m₁ with registers := r₁ } { m₂ with registers := r₂ } :=
  { h.stay m₁.keypad m₂.keypad with agree := ⟨hr, h.pixels⟩, delay := hdelay, sound := hsound }

theorem refused (h : m₁.Agree m₂) : Tandem (fun _ => False) m₁ m₂ (m₁.refused i) (m₂.refused i) := by
  cases i with
  -- a refused call writes back the number that its stack pointer holds
  | call nnn => exact h.withRegisters (h.registers.setSp (by rw [h.registers.sp])) id id
  | _ => exact h.stay m₁.keypad m₂.keypad

/-- A transfer that leaves the memory has gone by the bytes that are there, and by no more. -/
theorem broken (h : m₁.Agree m₂) (reach : m₁.registers.pc.toNat ≤ 4094) (hout : ¬ m₁.Fits i)
    (loads : ∀ a, m₁.Loads i a → m₁.memory.byte a = m₂.memory.byte a) :
    Tandem (m₁.Writes i) m₁ m₂ (m₁.broken i) (m₂.broken i) := by
  have hstay := h.stay m₁.keypad m₂.keypad
  have hr := h.registers
  cases i with
  | storeRegisters x =>
    have hbyte : ∀ a, m₁.memory.byte a = m₂.memory.byte a ∨ m₁.Writes (.storeRegisters x) a →
        (m₁.broken (.storeRegisters x)).memory.byte a = (m₂.broken (.storeRegisters x)).memory.byte a := by
      intro a heq
      simp only [Machine.broken, ← hr.index, ← hr.block]
      refine Memory.byte_store_congr (heq.imp_right fun ⟨hlow, _, hin⟩ => ⟨hlow, ?_⟩)
      rw [Registers.length_block, Memory.room]
      omega
    exact { hstay with agree := ⟨hr, h.pixels⟩, byte := hbyte }
  | loadRegisters x =>
    have hout : ¬ m₁.registers.index.toNat + (x + 1) ≤ 4096 := hout
    have hblock : m₁.memory.block m₁.registers.index.toNat (Memory.room m₁.registers.index.toNat) =
        m₂.memory.block m₂.registers.index.toNat (Memory.room m₂.registers.index.toNat) := by
      rw [← hr.index]
      refine Memory.block_congr fun a hlow hhigh => loads a ?_
      rw [Memory.room] at hhigh
      exact ⟨hlow, by omega, by omega⟩
    have hload := h.withRegisters (hr.load hblock)
      (by rw [Registers.delay_load, Registers.delay_load]; exact id)
      (by rw [Registers.sound_load, Registers.sound_load]; exact id)
    exact hload.mono fun _ => id
  | storeDecimal x => exact hstay.mono fun a hw => hout hw.1
  | call nnn =>
    have hfits : m₁.registers.pc.toNat + 2 < 65536 := by omega
    exact absurd hfits hout
  | _ => exact hstay.mono fun _ hw => hw.elim

/-! ## One step -/

/-- The word at the program counter is the same if its two bytes are. -/
theorem word (h : m₁.Agree m₂) (reach : m₁.registers.pc.toNat ≤ 4094)
    (reads : ∀ a, m₁.Reads a → m₁.memory.byte a = m₂.memory.byte a) :
    m₁.memory.word m₁.registers.pc.toNat = m₂.memory.word m₂.registers.pc.toNat := by
  rw [← h.registers.pc]
  exact Memory.word_congr (reads _ (.inl ⟨reach, .inl rfl⟩)) (reads _ (.inl ⟨reach, .inr rfl⟩))

theorem instruction? (h : m₁.Agree m₂) (reach : m₁.registers.pc.toNat ≤ 4094)
    (reads : ∀ a, m₁.Reads a → m₁.memory.byte a = m₂.memory.byte a) :
    m₁.instruction? = m₂.instruction? := congrArg Instruction.decode (h.word reach reads)

theorem fetched? (h : m₁.Agree m₂) (reads : ∀ a, m₁.Reads a → m₁.memory.byte a = m₂.memory.byte a) :
    m₁.fetched? = m₂.fetched? := by
  by_cases reach : m₁.registers.pc.toNat ≤ 4094
  · have reach₂ : m₂.registers.pc.toNat ≤ 4094 := h.registers.pc ▸ reach
    rw [fetched?_eq reach, fetched?_eq reach₂, h.instruction? reach reads]
  · have reach := Nat.lt_of_not_le reach
    have reach₂ : 4094 < m₂.registers.pc.toNat := h.registers.pc ▸ reach
    rw [fetched?_of_lt reach, fetched?_of_lt reach₂]

theorem asks (h : m₁.Agree m₂) (reads : ∀ a, m₁.Reads a → m₁.memory.byte a = m₂.memory.byte a) :
    m₁.asks = m₂.asks := by
  have hcalls : m₁.calls = m₂.calls := funext fun _ => h.calls
  rw [Machine.asks, Machine.asks, h.fetched? reads, hcalls]

/-- On the same keypad, the same comes of the questions. -/
theorem asked {κ : Type} [Keypad κ] {m₁ m₂ : Machine κ} (h : m₁.Agree m₂)
    (reads : ∀ a, m₁.Reads a → m₁.memory.byte a = m₂.memory.byte a) (keypad : m₁.keypad = m₂.keypad) :
    m₁.asked = m₂.asked := by
  have hquestion : m₁.question = m₂.question := by
    funext i
    cases i with
    | skipKeyDown x | skipKeyUp x => simp only [question, keyCode, h.registers.byte]
    | _ => rfl
  rw [Machine.asked, Machine.asked, h.fetched? reads, hquestion, keypad]

end Agree

section

variable [Keypad κ₁] [Keypad κ₂]

/-- The next steps of two machines come to the same, and leave the machines in tandem. -/
structure Lockstep (m₁ : Machine κ₁) (m₂ : Machine κ₂) : Prop where
  outcome : m₁.outcome = m₂.outcome
  tandem : Tandem m₁.Overwrites m₁ m₂ m₁.stepped m₂.stepped

theorem Lockstep.of_ok (run₁ : step m₁ = .ok i m₁') (run₂ : step m₂ = .ok i m₂')
    (tandem : Tandem m₁.Overwrites m₁ m₂ m₁' m₂') : Lockstep m₁ m₂ where
  outcome := by rw [outcome_of_ok run₁, outcome_of_ok run₂]
  tandem := by rwa [stepped_of_ok run₁, stepped_of_ok run₂]

theorem Lockstep.of_error {stop : Stop} (run₁ : step m₁ = .error stop m₁')
    (run₂ : step m₂ = .error stop m₂') (tandem : Tandem m₁.Overwrites m₁ m₂ m₁' m₂') : Lockstep m₁ m₂ where
  outcome := by rw [outcome_of_error run₁, outcome_of_error run₂]
  tandem := by rwa [stepped_of_error run₁, stepped_of_error run₂]

/-- The steps of two machines that come to the same instruction, by its outcomes. -/
theorem Agree.lockstep_of_fetched (h : m₁.Agree m₂) (reach₁ : m₁.registers.pc.toNat ≤ 4094)
    (fetched₁ : m₁.instruction? = some i) (reach₂ : m₂.registers.pc.toNat ≤ 4094)
    (fetched₂ : m₂.instruction? = some i)
    (loads : ∀ a, m₁.Loads i a → m₁.memory.byte a = m₂.memory.byte a) (inputs : SameInputs m₁ m₂ i)
    (heard : answer (m₁.question i m₁.keypad) = answer (m₂.question i m₂.keypad)) : Lockstep m₁ m₂ := by
  have hwrites : ∀ {a}, m₁.Overwrites a → m₁.Writes i a :=
    (overwrites_iff ((fetched?_eq reach₁).trans fetched₁)).1
  by_cases fits : m₁.Fits i
  · have fits₂ : m₂.Fits i := h.fits.1 fits
    cases href : m₁.refusal? i with
    | some e =>
      have href₂ : m₂.refusal? i = some e := h.refusal? ▸ href
      exact .of_error (step_refused reach₁ fetched₁ fits href) (step_refused reach₂ fetched₂ fits₂ href₂)
        (h.refused.mono fun a hw => not_writes_of_refusal href (hwrites hw))
    | none =>
      have href₂ : m₂.refusal? i = none := h.refusal? ▸ href
      cases hask : m₁.question i m₁.keypad with
      | ok a k =>
        rw [hask] at heard
        obtain ⟨k₂, hask₂⟩ := answer_eq_ok heard.symm
        have htandem := (h.after fits href loads inputs a k k₂).proceed i.flow
        exact .of_ok (step_done reach₁ fetched₁ fits href hask) (step_done reach₂ fetched₂ fits₂ href₂ hask₂)
          (htandem.mono fun _ => hwrites)
      | error cause k =>
        rw [hask] at heard
        obtain ⟨k₂, hask₂⟩ := answer_eq_error heard.symm
        -- the machines stay as they were, and an instruction that puts a question writes nothing
        have hno : ∀ a, ¬ m₁.Writes i a := fun a hw => by
          rw [question_of_calls (calls_eq_nil fun hall => hall.2.2 a hw)] at hask
          cases hask
        exact .of_error (step_unanswered reach₁ fetched₁ fits href hask)
          (step_unanswered reach₂ fetched₂ fits₂ href₂ hask₂)
          ((h.stay k k₂).mono fun a hw => hno a (hwrites hw))
  · have hrun₂ := step_outside reach₂ fetched₂ fun fits₂ => fits (h.fits.2 fits₂)
    rw [← h.faultOf] at hrun₂
    exact .of_error (step_outside reach₁ fetched₁ fits) hrun₂
      ((h.broken reach₁ fits loads).mono fun _ => hwrites)

/-- **A step goes by what is listed, and by nothing else**: registers and pixels, the bytes it reads, the one
other input of its instruction, and what it hears from the keypad. -/
theorem Agree.lockstep (h : m₁.Agree m₂) (reads : ∀ a, m₁.Reads a → m₁.memory.byte a = m₂.memory.byte a)
    (inputs : ∀ i, m₁.fetched? = some i → SameInputs m₁ m₂ i) (heard : m₁.heard = m₂.heard) :
    Lockstep m₁ m₂ := by
  have hpc := h.registers.pc
  by_cases reach₁ : m₁.registers.pc.toNat ≤ 4094
  · have reach₂ : m₂.registers.pc.toNat ≤ 4094 := hpc ▸ reach₁
    cases fetched₁ : m₁.instruction? with
    | none =>
      have fetched₂ : m₂.instruction? = none := h.instruction? reach₁ reads ▸ fetched₁
      have hrun₂ := step_unknown reach₂ fetched₂
      rw [← h.word reach₁ reads, ← hpc] at hrun₂
      exact .of_error (step_unknown reach₁ fetched₁) hrun₂ ((h.stay m₁.keypad m₂.keypad).mono fun a =>
        not_overwrites ((fetched?_eq reach₁).trans fetched₁))
    | some i =>
      have fetched₂ : m₂.instruction? = some i := h.instruction? reach₁ reads ▸ fetched₁
      have hi : m₁.fetched? = some i := (fetched?_eq reach₁).trans fetched₁
      rw [Machine.heard, Machine.heard, asked_of_fetched hi,
        asked_of_fetched ((fetched?_eq reach₂).trans fetched₂)] at heard
      exact h.lockstep_of_fetched reach₁ fetched₁ reach₂ fetched₂
        (fun a hload => reads a (.inr ⟨i, hi, hload⟩)) (inputs i hi) heard
  · have reach₁ := Nat.lt_of_not_le reach₁
    have hrun₂ := step_unreachable (m := m₂) (hpc ▸ reach₁)
    rw [← hpc] at hrun₂
    exact .of_error (step_unreachable reach₁) hrun₂ ((h.stay m₁.keypad m₂.keypad).mono fun a =>
      not_overwrites (fetched?_of_lt reach₁))

end

end Machine

end Chip8
