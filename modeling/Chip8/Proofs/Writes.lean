import Chip8.Proofs.Rows
import Chip8.Proofs.Updates
import Mathlib.Algebra.Ring.Int.Defs

/-!
# Proofs/Writes — what a row of writes leaves in a register

A write sets a number or adds to the number held, and what it stores is reduced. Reducing at every write
makes no difference to the number that is held in the end: it is the number set last plus all that was added
since, reduced once (`toNat_writes`). The flags have no part in what comes later, and tell how the last
write stood before it was reduced.
-/

namespace Chip8.Register

variable {width : Nat} {r r₀ : Register width}

/-- A write to a register. The numbers that come with it are 32-bit signed integers. -/
inductive Write where
  /-- Writes `v`. -/
  | set (v : Int32)
  /-- Writes the number held plus `d`. -/
  | add (d : Int32)
  /-- Writes the number held plus one. -/
  | increment
  /-- Writes the number held minus one. -/
  | decrement
deriving DecidableEq

namespace Write

/-- The number that it sets. -/
def value? : Write → Option Int
  | set v => some v.toInt
  | _ => none

/-- The number that it adds. -/
def delta : Write → Int
  | set _ => 0
  | add d => d.toInt
  | increment => 1
  | decrement => -1

/-- The number that it writes when `n` is held, before it is reduced. -/
def unreduced (n : Int) : Write → Int
  | set v => v.toInt
  | add d => n + d.toInt
  | increment => n + 1
  | decrement => n - 1

/-- The register after it. -/
def run (r : Register width) : Write → Except Fault (Register width)
  | set v => .ok (ofInt v.toInt)
  | add d => r.add d.toInt
  | increment => r.increment
  | decrement => r.decrement

theorem unreduced_eq (n : Int) (w : Write) : w.unreduced n = w.value?.getD (n + w.delta) := by
  cases w <;> rfl

/-- Reducing the number held changes what is written by a multiple. -/
theorem unreduced_emod (n : Int) (w : Write) (k : Int) : w.unreduced (n % k) % k = w.unreduced n % k := by
  rw [unreduced_eq, unreduced_eq]
  cases w.value? with
  | some v => rfl
  | none => exact Int.emod_add_emod n k w.delta

end Write

/-- The register after some writes, one after the other. -/
def writes (r : Register width) (ws : List Write) : Except Fault (Register width) := ws.foldlM Write.run r

/-- The number that was set last, or `n` if none was. -/
def lastSet (n : Int) (ws : List Write) : Int := (ws.reverse.findSome? Write.value?).getD n

/-- The sum of what was added since a number was set. -/
def addedSince (ws : List Write) : Int :=
  ((ws.reverse.takeWhile fun w => w.value?.isNone).map Write.delta).sum

theorem lastSet_concat (n : Int) (ws : List Write) (w : Write) :
    lastSet n (ws ++ [w]) = w.value?.getD (lastSet n ws) := by
  rw [lastSet, findSome?_reverse_concat]
  cases w.value? <;> rfl

theorem addedSince_concat (ws : List Write) (w : Write) :
    addedSince (ws ++ [w]) = if w.value?.isNone then w.delta + addedSince ws else 0 := by
  rw [addedSince, takeWhile_reverse_concat]
  split
  · exact List.sum_cons
  · rfl

/-- The sum that a row of writes comes to is what the last of them writes, unreduced, on top of the others. -/
theorem unreduced_sum (n : Int) (ws : List Write) (w : Write) :
    w.unreduced (lastSet n ws + addedSince ws) = lastSet n (ws ++ [w]) + addedSince (ws ++ [w]) := by
  rw [Write.unreduced_eq, lastSet_concat, addedSince_concat]
  cases w.value? with
  | some v => exact (Int.add_zero v).symm
  | none =>
    show lastSet n ws + addedSince ws + w.delta = lastSet n ws + (w.delta + addedSince ws)
    rw [Int.add_assoc, Int.add_comm (addedSince ws)]

/-! ## One write -/

/-- What is written never falls below the 32-bit signed integers, and what is set never leaves them. -/
theorem le_unreduced (n : Nat) (w : Write) : -(maxSum + 1 : Int) ≤ w.unreduced n := by
  cases w with
  | set v | add v =>
    have := v.le_toInt
    simp only [Write.unreduced, maxSum]
    omega
  | increment | decrement =>
    simp only [Write.unreduced, maxSum]
    omega

theorem add_eq (r : Register width) (d : Int) :
    r.add d = if (r.toNat + d : Int) ≤ maxSum then .ok (ofInt (r.toNat + d)) else .error .arithmetic := by
  have hle : ((r.toNat + d : Int)).toNat ≤ maxSum ↔ (r.toNat + d : Int) ≤ maxSum := Int.toNat_le
  simp only [add, hle]

/-- **A write stores its number reduced, unless that is beyond the 32-bit signed integers.** -/
theorem run_eq (r : Register width) (w : Write) :
    w.run r = if w.unreduced r.toNat ≤ maxSum then .ok (ofInt (w.unreduced r.toNat))
      else .error .arithmetic := by
  cases w with
  | set v =>
    have hv : v.toInt ≤ maxSum := v.toInt_le
    exact (if_pos hv).symm
  | add d => exact add_eq r d.toInt
  | increment => exact add_eq r 1
  | decrement => exact add_eq r (-1)

theorem run_eq_error_iff {w : Write} : (∃ f, w.run r = .error f) ↔ (maxSum : Int) < w.unreduced r.toNat := by
  simp only [run_eq, ite_eq_error_iff, exists_eq_left, Int.not_le]

theorem run_inv {w : Write} {r' : Register width} (h : w.run r = .ok r') : r' = ofInt (w.unreduced r.toNat) := by
  rw [run_eq, ite_eq_ok_iff] at h
  exact h.2.symm

/-! ## A row of writes -/

theorem writes_concat {ws : List Write} (h : r₀.writes ws = .ok r) (w : Write) :
    r₀.writes (ws ++ [w]) = w.run r := foldlM_concat h w

/-- **The number held is reduced once**, whatever was written. By induction on the writes. -/
theorem toNat_writes {n : Int} (h₀ : (r₀.toNat : Int) = n % modulus width) {ws : List Write}
    (h : r₀.writes ws = .ok r) : (r.toNat : Int) = (lastSet n ws + addedSince ws) % modulus width := by
  refine foldlM_keeps (P := fun ws r => (r.toNat : Int) = (lastSet n ws + addedSince ws) % modulus width) ?_ ?_ h
  · exact h₀.trans (congrArg (· % (modulus width : Int)) (Int.add_zero n).symm)
  · intro ws r w r' hsum hrun
    rw [run_inv hrun, toNat_ofInt, hsum, Write.unreduced_emod, unreduced_sum]

/-- The number held is the only one in its range that is congruent to the number it was reduced from. -/
theorem eq_toNat_iff {v : Int} (h : (r.toNat : Int) = v % modulus width) (n : Nat) :
    n = r.toNat ↔ n < modulus width ∧ (modulus width : Int) ∣ n - v := by
  rw [Int.dvd_iff_emod_eq_zero, ← Int.emod_eq_emod_iff_emod_sub_eq_zero, ← h]
  constructor
  · rintro rfl
    exact ⟨r.toNat_lt, Int.emod_eq_of_lt (Int.natCast_nonneg _) (Int.ofNat_lt.2 r.toNat_lt)⟩
  · rintro ⟨hlt, hcongr⟩
    rw [Int.emod_eq_of_lt (Int.natCast_nonneg n) (Int.ofNat_lt.2 hlt)] at hcongr
    exact Int.natCast_inj.1 hcongr

/-- **Writes add up modulo the number of values that a register can hold**, at every width. In a row of writes
that is not refused, the register holds the one number in its range that is congruent to the number set last,
or the one it began with, plus all that was added since. The flags tell of the last write before it was reduced:
whether it was beyond the range, or negative; they are never both raised, and neither is at the beginning. A
write that sets a number is never refused, and one that adds is refused exactly if the sum is greater than the
greatest 32-bit signed integer, the only way in which it can leave them. -/
theorem writes_add_up (hlow : 1 ≤ width) (hhigh : width ≤ maxWidth) (start : Word) :
    ∃ r₀ : Register width, ofWord width start = .ok r₀ ∧ r₀.overflowed = false ∧ r₀.borrowed = false ∧
      ∀ ws r, r₀.writes ws = .ok r →
        (∀ n : Nat, n = r.toNat ↔
          n < modulus width ∧ (modulus width : Int) ∣ n - (lastSet start.toNat ws + addedSince ws)) ∧
        (∀ v, ∃ r', r₀.writes (ws ++ [.set v]) = .ok r') ∧
        ∀ w : Write, let v := w.unreduced r.toNat
          ((∃ f, r₀.writes (ws ++ [w]) = .error f) ↔ (maxSum : Int) < v) ∧ -(maxSum + 1 : Int) ≤ v ∧
            ∀ r', r₀.writes (ws ++ [w]) = .ok r' →
              (r'.overflowed = true ↔ (modulus width : Int) ≤ v) ∧ (r'.borrowed = true ↔ v < 0) ∧
              ¬ (r'.overflowed = true ∧ r'.borrowed = true) := by
  have hstart : ((ofNat start.toNat : Register width).toNat : Int) = start.toNat % modulus width := by
    rw [toNat_ofNat, Int.natCast_emod]
  refine ⟨ofNat start.toNat, if_pos ⟨hlow, hhigh⟩, rfl, rfl, fun ws r h => ⟨?_, fun v => ?_, fun w => ?_⟩⟩
  · exact eq_toNat_iff (toNat_writes hstart h)
  · exact ⟨_, writes_concat h (.set v)⟩
  · intro v
    rw [writes_concat h w]
    refine ⟨run_eq_error_iff, le_unreduced r.toNat w, fun r' hrun => ?_⟩
    rw [run_inv hrun]
    refine ⟨decide_eq_true_iff, decide_eq_true_iff, not_overflowed_and_borrowed_ofInt v⟩

/-- Four bits that begin with 0xffff, so with 15: after -300, which borrows, and the numbers 70000 and 1, they
hold 1. -/
theorem writes_add_up_nibble :
    let ws : List Write := [.add (-300), .set 70000, .increment]
    ∃ r₀ r : Register 4, ofWord 4 0xffff = .ok r₀ ∧ r₀.writes ws = .ok r ∧ r.toNat = 1 ∧
      ∃ f, r₀.writes (ws ++ [.add 2147483647]) = .error f := by
  intro ws
  have hlow : 1 ≤ 4 := by decide
  obtain ⟨r₀, hstart, -, -, hwrites⟩ := writes_add_up hlow (by decide) 0xffff
  obtain rfl : ofNat 0xffff = r₀ := Except.ok.inj hstart
  have hrun : (ofNat 0xffff : Register 4).writes ws = .ok (ofInt 1) := by decide
  obtain ⟨hvalue, -, hnext⟩ := hwrites ws _ hrun
  exact ⟨_, _, hstart, hrun, ((hvalue 1).2 (by decide)).symm, (hnext (.add 2147483647)).1.2 (by decide)⟩

end Chip8.Register
