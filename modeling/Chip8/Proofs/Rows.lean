import Chip8.Error
import Mathlib.Data.List.Induction

/-!
# Proofs/Rows — computations that may be refused, alone and in a row

A checked computation is refused if its check fails, and a row of them goes on until one is refused. A row in which
each acts on what the others left is read here from its end: the last one acts on what is left of the others
(`foldlM_concat`), and what every one keeps, the row keeps (`foldlM_keeps`). What was done last in a row, and what
was done since the last one of some kind, are read from its end likewise.
-/

namespace Chip8

variable {α β ε σ : Type}

/-! ## One computation -/

section

variable {c : Prop} [Decidable c] {a b : α} {e e' : ε}

theorem ite_eq_ok_iff : (if c then .ok a else .error e : Except ε α) = .ok b ↔ c ∧ a = b := by
  by_cases hc : c <;> simp [hc]

theorem dite_eq_error_iff {r : c → α} :
    (if h : c then .ok (r h) else .error e : Except ε α) = .error e' ↔ e' = e ∧ ¬ c := by
  by_cases hc : c
  · rw [dif_pos hc]
    exact ⟨nofun, fun h => absurd hc h.2⟩
  · rw [dif_neg hc, Except.error.injEq, eq_comm]
    exact (and_iff_left hc).symm

theorem ite_eq_error_iff : (if c then .ok a else .error e : Except ε α) = .error e' ↔ e' = e ∧ ¬ c :=
  dite_eq_error_iff (r := fun _ => a)

end

theorem bind_eq_ok_iff {r : Except ε α} {f : α → Except ε β} {b : β} :
    (r >>= f) = .ok b ↔ ∃ a, r = .ok a ∧ f a = .ok b :=
  ⟨bind_eq_ok, fun ⟨_, hr, hf⟩ => hr ▸ hf⟩

/-! ## Computations on their own -/

section

variable {f : α → Except ε β} {l : List α}

theorem mapM_eq_ok {g : α → β} (h : ∀ a ∈ l, f a = .ok (g a)) : l.mapM f = .ok (l.map g) := by
  induction l with
  | nil => rfl
  | cons a l ih =>
    rw [List.mapM_cons, h a List.mem_cons_self, ok_bind, ih fun b hb => h b (List.mem_cons_of_mem a hb)]
    rfl

theorem ok_of_mapM_eq_ok {bs : List β} (h : l.mapM f = .ok bs) : ∀ a ∈ l, ∃ b, f a = .ok b := by
  induction l generalizing bs with
  | nil => exact fun a ha => absurd ha List.not_mem_nil
  | cons a l ih =>
    rw [List.mapM_cons] at h
    obtain ⟨b, hb, hrest⟩ := bind_eq_ok h
    obtain ⟨bs', hbs, -⟩ := bind_eq_ok hrest
    exact List.forall_mem_cons.2 ⟨⟨b, hb⟩, ih hbs⟩

end

/-! ## Computations on what the others left -/

section

variable {f : σ → α → Except ε σ} {s₀ s : σ} {row : List α}

theorem foldlM_concat (h : row.foldlM f s₀ = .ok s) (a : α) : (row ++ [a]).foldlM f s₀ = f s a := by
  rw [List.foldlM_append, h, ok_bind, List.foldlM_cons]
  exact bind_pure (f s a)

/-- **What every computation keeps, a row of them keeps.** By induction on the row, the last one taken off. -/
theorem foldlM_keeps {P : List α → σ → Prop} (start : P [] s₀)
    (next : ∀ row s a s', P row s → f s a = .ok s' → P (row ++ [a]) s') (h : row.foldlM f s₀ = .ok s) :
    P row s := by
  induction row using List.reverseRecOn generalizing s with
  | nil =>
    obtain rfl : s₀ = s := Except.ok.inj h
    exact start
  | append_singleton row a ih =>
    have hsplit := h
    rw [List.foldlM_append] at hsplit
    obtain ⟨s₁, h₁, -⟩ := bind_eq_ok hsplit
    rw [foldlM_concat h₁] at h
    exact next row s₁ a s (ih h₁) h

end

/-! ## A row read from its end -/

theorem findSome?_reverse_concat (g : α → Option β) (row : List α) (a : α) :
    (row ++ [a]).reverse.findSome? g = (g a).or (row.reverse.findSome? g) := by
  rw [List.reverse_concat, List.findSome?_cons]
  cases g a <;> rfl

theorem takeWhile_reverse_concat (p : α → Bool) (row : List α) (a : α) :
    (row ++ [a]).reverse.takeWhile p = if p a then a :: row.reverse.takeWhile p else [] := by
  rw [List.reverse_concat, List.takeWhile_cons]

end Chip8
