import Chip8.Proofs.History
import Chip8.Proofs.Outcomes

/-!
# Proofs/Timers — a timer is what was last written to it, less the ticks since

Each timer has one instruction that writes it. A reset writes zero, a tick takes one away unless nothing is
left, and nothing else that is done with a machine touches it (`Does.timer`). So a timer can be read off the
history: from the last deed that wrote it and the ticks that came after (`History.timer`). The argument is made
once, with the timer as a parameter.
-/

namespace Chip8

/-- The timers of a machine. -/
inductive Timer where
  /-- The one that a program can read. -/
  | delay
  /-- The one that sounds a tone. -/
  | sound
deriving DecidableEq, Repr

/-- The register of a timer. -/
def Registers.timer (r : Registers) : Timer → Register 8
  | .delay => r.delay
  | .sound => r.sound

theorem Register.toNat_countDown (r : Register 8) : r.countDown.toNat = r.toNat - 1 := by
  by_cases hzero : r.toNat = 0
  · rw [countDown, if_pos hzero, hzero]
  · have hlt : r.toNat < modulus 8 := r.toNat_lt
    have hcast : (r.toNat : Int) - 1 = (r.toNat - 1 : Nat) := by omega
    rw [countDown, if_neg hzero, hcast, toNat_ofInt_natCast (by omega)]

theorem Registers.Regular.timer {r : Registers} (h : r.Regular) (t : Timer) : (r.timer t).Quiet := by
  cases t with
  | delay => exact h.delay
  | sound => exact h.sound

namespace Machine

variable {κ : Type} {m m' m₀ : Machine κ} {i : Instruction} {t : Timer}

/-! ## What writes a timer -/

/-- The byte that an instruction writes to a timer. -/
def timerByte? (m : Machine κ) : Timer → Instruction → Option Byte
  | .delay, .setDelay x | .sound, .setSound x => some (m.registers.byte x)
  | _, _ => none

/-- The byte that a deed writes to a timer. -/
def Deed.timerByte? (m : Machine κ) (t : Timer) : Deed κ → Option Byte
  | executed i => m.timerByte? t i
  | reset => some 0
  | _ => none

/-- Whether the timers tick. -/
def Deed.isTick : Deed κ → Bool
  | tick => true
  | _ => false

/-- The number last written to a timer, zero if there is none. -/
def setting (t : Timer) (log : Log κ) : Nat :=
  ((log.reverse.findSome? fun (p : Machine κ × Deed κ) => p.2.timerByte? p.1 t).getD 0).toNat

/-- The number of ticks since the timer was last written. -/
def ticksSince (t : Timer) (log : Log κ) : Nat :=
  (log.reverse.takeWhile fun p => (p.2.timerByte? p.1 t).isNone).countP fun p => p.2.isTick

/-- What a timer shows after a history: the ticks count it down, to zero and no further. -/
def remaining (t : Timer) (log : Log κ) : Nat := setting t log - ticksSince t log

theorem setting_concat (log : Log κ) (m : Machine κ) (d : Deed κ) :
    setting t (log ++ [(m, d)]) =
      match d.timerByte? m t with
      | some b => b.toNat
      | none => setting t log := by
  rw [setting, List.reverse_concat, List.findSome?_cons]
  cases d.timerByte? m t <;> rfl

theorem ticksSince_concat (log : Log κ) (m : Machine κ) (d : Deed κ) :
    ticksSince t (log ++ [(m, d)]) =
      match d.timerByte? m t with
      | some _ => 0
      | none => ticksSince t log + if d.isTick then 1 else 0 := by
  rw [ticksSince, List.reverse_concat, List.takeWhile_cons]
  cases d.timerByte? m t with
  | some b => rfl
  | none => exact List.countP_cons

/-- A deed starts the timer anew if it writes it, and takes one away if it is a tick. -/
theorem remaining_concat (log : Log κ) (m : Machine κ) (d : Deed κ) :
    remaining t (log ++ [(m, d)]) =
      match d.timerByte? m t with
      | some b => b.toNat
      | none => remaining t log - if d.isTick then 1 else 0 := by
  rw [remaining, setting_concat, ticksSince_concat, remaining]
  cases d.timerByte? m t with
  | some b => rfl
  | none => exact Nat.sub_add_eq _ _ _

/-! ## The timers of a machine -/

theorem timer_registersAfter (answer : KeyAnswer) :
    (m.registersAfter answer i).timer t =
      match m.timerByte? t i with
      | some b => .ofInt b.toNat
      | none => m.registers.timer t := by
  cases t with
  | delay =>
    cases i with
    | setDelay x => rfl
    | _ =>
      refine delay_registersAfter ?_ answer
      exact nofun
  | sound =>
    cases i with
    | setSound x => rfl
    | _ =>
      refine sound_registersAfter ?_ answer
      exact nofun

theorem timer_proceed {flow : Flow} : (m.proceed flow).registers.timer t = m.registers.timer t := by
  cases flow <;> cases t <;> rfl

theorem timer_tickTimers : m.tickTimers.registers.timer t = (m.registers.timer t).countDown := by
  cases t <;> rfl

theorem Started.timer (h : m.Started) : (m.registers.timer t).toNat = 0 := by
  rw [h.registers]
  cases t <;> rfl

section

variable [Keypad κ]

/-- **A timer changes when it is written and when it ticks**, whatever else is done with the machine. -/
theorem Does.timer {d : Deed κ} (does : m.Does d m') (hm : m.Reachable) :
    (m'.registers.timer t).toNat =
      match d.timerByte? m t with
      | some b => b.toNat
      | none => (m.registers.timer t).toNat - if d.isTick then 1 else 0 := by
  cases does with
  | load program =>
    rw [registers_offered]
    rfl
  | @executed i m' done =>
    cases steps_of_run done with
    | done reach fetched fits accepted answered =>
      have hafter := timer_registersAfter (m := m) (i := i) (t := t)
      rw [timer_proceed]
      show ((m.registersAfter _ i).timer t).toNat = match m.timerByte? t i with
        | some b => b.toNat
        | none => (m.registers.timer t).toNat
      rw [hafter]
      cases m.timerByte? t i with
      | some b => exact Register.toNat_ofInt_natCast b.isLt
      | none => rfl
  | failed failed =>
    rw [step_error hm.regular.sp.quiet failed]
    rfl
  | tick =>
    rw [timer_tickTimers]
    exact Register.toNat_countDown _
  | refresh left =>
    obtain ⟨keypad, rfl⟩ := refresh_inv left
    rfl
  | reset => exact (Started.reset m).timer
  | redraw | host keypad => rfl

theorem History.timer {log : Log κ} (hh : m₀.History log m) (hs : m₀.Started) :
    m.Reachable ∧ ∀ t, (m.registers.timer t).toNat = remaining t log := by
  refine hh.keeps (P := fun log m => m.Reachable ∧ ∀ t, (m.registers.timer t).toNat = remaining t log)
    ⟨hs.reachable, fun t => hs.timer⟩ ?_
  rintro before m d m' ⟨hm, h⟩ - does
  refine ⟨does.reachable hm, fun t => ?_⟩
  rw [does.timer hm, remaining_concat, h]

/-- Reading the delay timer always completes, and gives the number it holds. -/
theorem step_getDelay {x : Nat} (fetched : m.fetched? = some (.getDelay x)) :
    ∃ m', step m = .ok (.getDelay x) m' ∧ (m'.registers.byte x).toNat = (m.registers.timer .delay).toNat := by
  obtain ⟨reach, hi⟩ := fetched?_eq_some.1 fetched
  have hx : x < 16 := Instruction.inRange_of_decode hi
  refine ⟨_, step_done (k := m.keypad) reach hi trivial rfl rfl, ?_⟩
  show ((m.registers.put x m.registers.delay.byte.toNat).byte x).toNat = _
  rw [Registers.byte_put_byte hx, Register.toNat_byte]
  rfl

/-- **A timer shows what was last written to it, less the ticks since then and never less than zero**, in every
history from a new or reset machine, whatever steps fail; a reset in its course writes zero. The instruction that
reads the delay timer always completes and gives this number, a tone sounds as long as the ticks are fewer than
what was written for it, and neither timer ever has a flag. -/
theorem timers_count_down {log : Log κ} (hs : m₀.Started) (hh : m₀.History log m) :
    (∀ t, (m.registers.timer t).toNat = setting t log - ticksSince t log ∧
      (m.registers.timer t).overflowed = false ∧ (m.registers.timer t).borrowed = false) ∧
    (m.soundActive = true ↔ ticksSince .sound log < setting .sound log) ∧
    ∀ x, m.fetched? = some (.getDelay x) → ∃ m', step m = .ok (.getDelay x) m' ∧
      (m'.registers.byte x).toNat = setting .delay log - ticksSince .delay log := by
  obtain ⟨hm, htimer⟩ := hh.timer hs
  refine ⟨fun t => ⟨htimer t, hm.regular.timer t⟩, ?_, fun x fetched => ?_⟩
  · have hsound : m.registers.sound.toNat = setting .sound log - ticksSince .sound log := htimer .sound
    rw [soundActive, decide_eq_true_iff, hsound, Nat.sub_pos_iff_lt]
  · rw [← remaining, ← htimer]
    exact step_getDelay fetched

/-- A program that sets the delay timer to 3 and, one tick later, reads 2. -/
theorem timers_count_down_read :
    let program : List Byte := [0x60, 0x03, 0xf0, 0x15, 0xf1, 0x07]
    let m₁ : Machine ScriptedKeypad := { Machine.new (.holding []) {} (.ofSeed 0) with
      memory := Memory.new.store Memory.programBase program }
    ∃ log m m', m₁.History log m ∧ step m = .ok (.getDelay 1) m' ∧ (m'.registers.byte 1).toNat = 2 ∧
      m.soundActive = false := by
  intro program m₁
  let m₂ := (m₁.after (.setByte 0 3) .silence m₁.keypad).proceed .next
  let m₃ := (m₂.after (.setDelay 0) .silence m₂.keypad).proceed .next
  have hbyte : ∀ i < 6, m₁.memory.byte (0x200 + i) = program.getD i 0 := by
    intro i hi
    have hin : 0x200 ≤ 0x200 + i ∧ 0x200 + i < 0x200 + program.length :=
      ⟨Nat.le_add_right 0x200 i, Nat.add_lt_add_left hi 0x200⟩
    have hfits : 0x200 + program.length ≤ 4096 := by decide
    have hstored := Memory.byte_store (m := .new) hfits (0x200 + i)
    rwa [if_pos hin, Nat.add_sub_cancel_left] at hstored
  have hword : ∀ i, i + 1 < 6 → m₁.memory.word (0x200 + i) = program.getD i 0 ++ program.getD (i + 1) 0 :=
    fun i hi => by rw [Memory.word, Nat.add_assoc, hbyte i (by omega), hbyte (i + 1) hi]
  have hi₁ : m₁.instruction? = some (.setByte 0 3) :=
    (congrArg Instruction.decode (hword 0 (by decide))).trans (by decide)
  have hi₂ : m₂.instruction? = some (.setDelay 0) :=
    (congrArg Instruction.decode (hword 2 (by decide))).trans (by decide)
  have hi₃ : m₃.tickTimers.fetched? = some (.getDelay 1) :=
    fetched?_eq_some.2 ⟨by decide, (congrArg Instruction.decode (hword 4 (by decide))).trans (by decide)⟩
  have hload : (Machine.new (.holding []) {} (.ofSeed 0)).load program = .ok m₁ := rfl
  have hstarted : m₁.Started := .load (.new (.holding []) {} (.ofSeed 0)) hload
  have hh := History.start.next (.executed (step_done (by decide) hi₁ trivial rfl rfl)) |>.next
    (.executed (step_done (m := m₂) (by decide) hi₂ trivial rfl rfl)) |>.next .tick
  obtain ⟨-, hsound, hread⟩ := timers_count_down hstarted hh
  obtain ⟨m', hrun, hbyte⟩ := hread 1 hi₃
  exact ⟨_, _, m', hh, hrun, hbyte, rfl⟩

end

end Machine

end Chip8
