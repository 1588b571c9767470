import Chip8.Proofs.Steps

/-!
# Proofs/Bounds — where a step leaves the machine's bounds

Sums, differences, register numbers and pixel coordinates are all checked on the way through an
instruction, and each check is a fault when it fails. Only the checks of addresses ever do: by fetching
from beyond the last word, or by an instruction that addresses memory through the index
(`Machine.Overruns`). This holds of every machine, in particular of one whose program has overwritten its
own return addresses and gone to wherever they then point.
-/

namespace Chip8.Machine

variable {κ : Type} {m : Machine κ} {i : Instruction}

/-- The instruction addresses bytes past the end of memory through the index. -/
def Overruns (m : Machine κ) : Instruction → Prop
  | .draw _ _ n => 4096 < m.registers.index.toNat + n.toNat
  | .storeDecimal _ => 4096 < m.registers.index.toNat + 3
  | .storeRegisters x | .loadRegisters x => 4096 < m.registers.index.toNat + x + 1
  | _ => False

/-- A call within memory leaves room for the address after it, so it always fits. -/
theorem not_fits_iff (hpc : m.registers.pc.toNat ≤ 4094) : ¬ m.Fits i ↔ m.Overruns i := by
  cases i with
  | draw x y n => exact Nat.not_le
  | storeDecimal x => exact Nat.not_le
  | storeRegisters x => exact Nat.not_le
  | loadRegisters x => exact Nat.not_le
  | call nnn => exact ⟨fun hout => hout (show _ < _ by omega), False.elim⟩
  | _ => exact ⟨fun hout => hout trivial, False.elim⟩

/-- **A step faults exactly when it addresses bytes beyond memory**: when the program counter is past the
last word, or when the instruction there overruns memory through the index. No other check of a step ever
fails: every fault is one of memory, never a sum or a difference that leaves its type, a register that does
not exist, or a pixel outside the screen. -/
theorem step_fault_iff [Keypad κ] (m : Machine κ) :
    ((∃ f m', step m = .error (.fault f) m') ↔
      4094 < m.registers.pc.toNat ∨ ∃ i, m.instruction? = some i ∧ m.Overruns i) ∧
    ∀ f m', step m = .error (.fault f) m' → ∃ a n, f = .addressRange a n ∧ 4096 < a + n := by
  have hout := steps_to (m := m)
  refine ⟨⟨?_, ?_⟩, ?_⟩
  · rintro ⟨f, m', hrun⟩
    rw [hrun] at hout
    cases hout with
    | fault reach fetched outside memory => exact .inr ⟨_, fetched, (not_fits_iff reach).1 outside⟩
    | unreachable reach => exact .inl reach
  · intro h
    rcases Nat.lt_or_ge 4094 m.registers.pc.toNat with hpc | hpc
    · exact ⟨_, m, step_unreachable hpc⟩
    · obtain ⟨i, hi, hover⟩ := h.resolve_left (Nat.not_lt.2 hpc)
      have hout : ¬ m.Fits i := (not_fits_iff hpc).2 hover
      obtain ⟨f, m', hrun, -⟩ := execute_fault (Instruction.inRange_of_decode hi) hout
      exact ⟨f, m', by rw [step_execute hpc hi, hrun]⟩
  · intro f m' hrun
    rw [hrun] at hout
    cases hout with
    | fault reach fetched outside memory =>
      cases f with
      | addressRange a n => exact ⟨a, n, rfl, memory⟩
      | _ => exact memory.elim
    | unreachable reach => exact ⟨_, 2, rfl, Nat.add_lt_add_right reach 2⟩

end Chip8.Machine
