import Chip8.Numeral

/-!
# Proofs/Numerals — what is read as an unsigned number

A text writes a number if it is an optional plus sign and at least one decimal digit, and nothing else
(`Numeral.Writes`). `read?_eq_some_iff` says that reading accepts exactly the texts that write a number below
the bound, whatever the number of zeros in front, and gives that number; the decimal form of a number is such
a text.
-/

namespace Chip8.Numeral

/-- The text writes the number `n`: an optional plus sign, then at least one decimal digit, and nothing
else. -/
def Writes (n : Nat) (text : String) : Prop :=
  ∃ ds : List Char, (text.toList = ds ∨ text.toList = '+' :: ds) ∧ ds ≠ [] ∧ (∀ c ∈ ds, c.isDigit = true) ∧
    Nat.ofDigitChars 10 ds 0 = n

variable {cs : List Char} {bound n : Nat} {text : String}

/-! ## Lists of digits -/

theorem digits?_cons (c : Char) (cs : List Char) :
    digits? (c :: cs) = (digit? c).bind fun d => (digits? cs).map (d :: ·) := by
  rw [digits?, digits?, List.mapM_cons]
  cases digit? c with
  | none => rfl
  | some d => cases cs.mapM digit? <;> rfl

theorem digits?_eq_some_iff {ds : List Nat} :
    digits? cs = some ds ↔ (∀ c ∈ cs, c.isDigit = true) ∧ ds = cs.map fun c => c.toNat - '0'.toNat := by
  induction cs generalizing ds with
  | nil =>
    rw [digits?, List.mapM_nil]
    exact ⟨fun h => ⟨fun _ => nofun, (Option.some.inj h).symm⟩, fun h => congrArg some h.2.symm⟩
  | cons c cs ih =>
    rw [digits?_cons, Option.bind_eq_some_iff]
    simp only [Option.map_eq_some_iff, ih, List.forall_mem_cons, List.map_cons, digit?]
    constructor
    · rintro ⟨d, hd, l, ⟨hdigits, rfl⟩, rfl⟩
      obtain ⟨hc, hd⟩ := Option.ite_none_right_eq_some.1 hd
      exact ⟨⟨hc, hdigits⟩, by rw [Option.some.inj hd]⟩
    · rintro ⟨⟨hc, hdigits⟩, rfl⟩
      exact ⟨_, if_pos hc, _, ⟨hdigits, rfl⟩, rfl⟩

theorem ofDigits_map (cs : List Char) :
    ofDigits (cs.map fun c => c.toNat - '0'.toNat) = Nat.ofDigitChars 10 cs 0 := by
  rw [ofDigits, List.foldl_map, Nat.ofDigitChars_eq_foldl]

/-! ## Texts -/

theorem dropPlus_plus (cs : List Char) : dropPlus ('+' :: cs) = cs := rfl

theorem dropPlus_digits (h : ∀ c ∈ cs, c.isDigit = true) : dropPlus cs = cs := by
  unfold dropPlus
  split
  · exact absurd (h '+' List.mem_cons_self) (by decide)
  · rfl

theorem eq_or_plus_of_dropPlus (cs : List Char) : cs = dropPlus cs ∨ cs = '+' :: dropPlus cs := by
  unfold dropPlus
  split
  · exact .inr rfl
  · exact .inl rfl

/-- **Exactly the numerals below the bound are read**, and each as its number. -/
theorem read?_eq_some_iff : read? bound text = some n ↔ Writes n text ∧ n < bound := by
  rw [read?]
  constructor
  · intro h
    split at h
    case h_2 => contradiction
    case h_1 d ds hdigits =>
      obtain ⟨hlt, hn⟩ := Option.ite_none_right_eq_some.1 h
      obtain ⟨hall, hds⟩ := digits?_eq_some_iff.1 hdigits
      rw [hds, ofDigits_map] at hlt hn
      refine ⟨⟨_, eq_or_plus_of_dropPlus _, fun hnil => ?_, hall, Option.some.inj hn⟩, ?_⟩
      · rw [hnil] at hds
        cases hds
      · rwa [← Option.some.inj hn]
  · rintro ⟨⟨ds, htext, hne, hall, hn⟩, hlt⟩
    have hdrop : dropPlus text.toList = ds := by
      obtain htext | htext := htext
      · rw [htext, dropPlus_digits hall]
      · rw [htext, dropPlus_plus]
    obtain ⟨c, cs, rfl⟩ := List.exists_cons_of_ne_nil hne
    have hvalue : ofDigits ((c.toNat - '0'.toNat) :: cs.map fun c => c.toNat - '0'.toNat) = n :=
      (ofDigits_map (c :: cs)).trans hn
    rw [hdrop, digits?_eq_some_iff.2 ⟨hall, rfl⟩, List.map_cons]
    simp only [hvalue, hlt, if_true]

/-- A number is written by its decimal form. -/
theorem writes_toString (n : Nat) : Writes n (toString n) := by
  refine ⟨Nat.toDigits 10 n, .inl ?_, Nat.toDigits_ne_nil, fun c hc => ?_, Nat.ofDigitChars_ten_toDigits⟩
  · rw [Nat.toString_eq_repr, Nat.toList_repr]
  · exact Nat.isDigit_of_mem_toDigits (by decide) (by decide) hc

/-- A text writes one number at most. -/
theorem Writes.unique {m : Nat} (hm : Writes m text) (hn : Writes n text) : m = n := by
  have h := read?_eq_some_iff.2 ⟨hm, Nat.lt_succ_of_le (Nat.le_max_left m n)⟩
  rw [read?_eq_some_iff.2 ⟨hn, Nat.lt_succ_of_le (Nat.le_max_right m n)⟩] at h
  exact (Option.some.inj h).symm

end Chip8.Numeral
