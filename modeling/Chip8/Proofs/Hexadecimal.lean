import Chip8.Hex
import Mathlib.Data.List.Basic

/-!
# Proofs/Hexadecimal — hexadecimal numerals are read back

A numeral in base sixteen has one value, in either case of its letters and with any number of zeros in front
(`Hex.value`). Writing a number and reading it gives the number, at every width (`value_lowerDigits`,
`value_upperDigits`), so the written forms of two numbers are equal only if the numbers are.
-/

namespace Chip8.Hex

/-- The digits from zero to fifteen, in lower case. -/
def digitChars : List Char :=
  ['0', '1', '2', '3', '4', '5', '6', '7', '8', '9', 'a', 'b', 'c', 'd', 'e', 'f']

/-- The value of a digit in either case. -/
def digitValue (c : Char) : Nat := digitChars.idxOf c.toLower

/-- The number that a list of digits writes. -/
def value (cs : List Char) : Nat := cs.foldl (fun n c => 16 * n + digitValue c) 0

/-! ## The digits of a number -/

theorem digitChar_mem {d : Nat} (h : d < 16) : d.digitChar ∈ digitChars := by
  revert h d
  decide

theorem digitValue_digitChar {d : Nat} (h : d < 16) : digitValue d.digitChar = d := by
  revert h d
  decide

theorem digitValue_toUpper {c : Char} (h : c ∈ digitChars) : digitValue c.toUpper = digitValue c := by
  have hall : digitChars.all (fun c => digitValue c.toUpper == digitValue c) = true := by decide
  exact beq_iff_eq.1 (List.all_eq_true.1 hall c h)

/-- By strong induction on the number: its digits are those of its sixteenth, and one more. -/
theorem mem_toDigits (n : Nat) : ∀ c ∈ Nat.toDigits 16 n, c ∈ digitChars := by
  induction n using Nat.strongRecOn with
  | ind n ih =>
    intro c hc
    by_cases hn : n < 16
    · rw [Nat.toDigits_of_lt_base hn] at hc
      obtain rfl := List.mem_singleton.1 hc
      exact digitChar_mem hn
    · rw [Nat.toDigits_of_base_le (by decide) (Nat.le_of_not_lt hn), List.mem_append] at hc
      obtain hc | hc := hc
      · exact ih _ (by omega) c hc
      · obtain rfl := List.mem_singleton.1 hc
        exact digitChar_mem (Nat.mod_lt _ (by decide))

theorem value_concat (cs : List Char) (c : Char) : value (cs ++ [c]) = 16 * value cs + digitValue c := by
  rw [value, List.foldl_append]
  rfl

theorem value_singleton (c : Char) : value [c] = digitValue c := (value_concat [] c).trans (Nat.zero_add _)

theorem value_toDigits (n : Nat) : value (Nat.toDigits 16 n) = n := by
  induction n using Nat.strongRecOn with
  | ind n ih =>
    by_cases hn : n < 16
    · rw [Nat.toDigits_of_lt_base hn, value_singleton, digitValue_digitChar hn]
    · rw [Nat.toDigits_of_base_le (by decide) (Nat.le_of_not_lt hn), value_concat, ih _ (by omega),
        digitValue_digitChar (Nat.mod_lt _ (by decide))]
      omega

/-! ## Written forms -/

theorem value_zeros_append (k : Nat) (cs : List Char) : value (List.replicate k '0' ++ cs) = value cs := by
  induction k with
  | zero => rfl
  | succ k ih => exact ih

/-- **A number written in lower case, at any width, is read back.** -/
theorem value_lowerDigits (width n : Nat) : value (lowerDigits width n) = n := by
  rw [lowerDigits, List.leftpad, value_zeros_append, value_toDigits]

theorem value_map_toUpper {cs : List Char} (h : ∀ c ∈ cs, c ∈ digitChars) :
    value (cs.map Char.toUpper) = value cs := by
  rw [value, value, List.foldl_map]
  exact List.foldl_ext _ _ _ fun n c hc => by rw [digitValue_toUpper (h c hc)]

/-- **A number written in upper case is read back.** -/
theorem value_upperDigits (n : Nat) : value ((Nat.toDigits 16 n).map Char.toUpper) = n := by
  rw [value_map_toUpper (mem_toDigits n), value_toDigits]

theorem mem_lowerDigits {width n : Nat} : ∀ c ∈ lowerDigits width n, c ∈ digitChars := by
  intro c hc
  rw [lowerDigits, List.leftpad, List.mem_append] at hc
  obtain hc | hc := hc
  · obtain rfl := List.eq_of_mem_replicate hc
    decide
  · exact mem_toDigits n c hc

theorem lowerDigits_ne_nil (width n : Nat) : lowerDigits width n ≠ [] := by
  rw [lowerDigits, List.leftpad]
  exact List.append_ne_nil_of_right_ne_nil _ Nat.toDigits_ne_nil

end Chip8.Hex
