import Chip8.Memory

/-!
# Proofs/Bytes — memory as a function of the address

A checked access inside the 4096 bytes reads `Memory.byte` and writes `Memory.store`, both total.
What a write leaves behind is then one equation, `byte_store`, and every later proof about memory is
arithmetic on addresses.
-/

namespace Chip8.Memory

variable {m : Memory} {a n : Nat} {data : List Byte}

/-- The byte at `a`, zero beyond the end. -/
def byte (m : Memory) (a : Nat) : Byte := m.bytes[a]?.getD 0

/-- The word whose high byte is at `a`. -/
def word (m : Memory) (a : Nat) : Word := m.byte a ++ m.byte (a + 1)

/-- The `n` bytes from `a` on. -/
def block (m : Memory) (a n : Nat) : List Byte := (List.range n).map fun i => m.byte (a + i)

/-- The memory with `data` stored from `a` on; what falls beyond the end is lost. -/
def store (m : Memory) (a : Nat) (data : List Byte) : Memory := ⟨put m.bytes a data⟩

/-- The number of bytes from `a` to the end. -/
def room (a : Nat) : Nat := 4096 - a

@[simp] theorem getElem_bytes (h : a < 4096) : m.bytes[a] = m.byte a := by
  rw [byte, Vector.getElem?_eq_getElem h, Option.getD_some]

theorem byte_of_le (h : 4096 ≤ a) : m.byte a = 0 := by
  rw [byte, Vector.getElem?_eq_none h]
  rfl

/-- Memories are equal when they agree on every byte. -/
theorem ext_byte {m₁ m₂ : Memory} (h : ∀ a, m₁.byte a = m₂.byte a) : m₁ = m₂ := by
  obtain ⟨bytes₁⟩ := m₁
  obtain ⟨bytes₂⟩ := m₂
  refine congrArg Memory.mk (Vector.ext fun a ha => ?_)
  have hbyte := h a
  rwa [← getElem_bytes ha, ← getElem_bytes ha] at hbyte

/-! ## Checked accesses -/

theorem get_eq_byte (h : a < 4096) : m.get a = .ok (m.byte a) := by
  rw [get_eq_ok h, getElem_bytes]

theorem getWord_eq_word (h : a + 2 ≤ 4096) : m.getWord a = .ok (m.word a) := by
  rw [getWord_eq_ok h, getElem_bytes, getElem_bytes, word]

theorem getWord_eq_error (h : ¬ a + 2 ≤ 4096) : m.getWord a = .error (.addressRange a 2) := dif_neg h

theorem slice_eq_block (h : a + n ≤ 4096) : m.slice a n = .ok (m.block a n) := by
  rw [slice_eq_ok h, block]
  refine congrArg Except.ok (List.ext_getElem (by simp) fun i hi _ => ?_)
  rw [List.getElem_ofFn, getElem_bytes, List.getElem_map, List.getElem_range]

theorem slice_eq_error (h : ¬ a + n ≤ 4096) : m.slice a n = .error (.addressRange a n) := dif_neg h

theorem write_eq_store (h : a + data.length ≤ 4096) : m.write a data = .ok (m.store a data) :=
  write_eq_ok h

theorem write_eq_error (h : ¬ a + data.length ≤ 4096) :
    m.write a data = .error (.addressRange a data.length) := if_neg h

theorem load_eq (m : Memory) (program : List Byte) :
    m.load program = if program.length ≤ 3584 then .ok (m.store 0x200 program)
      else .error (.imageTooLarge program.length 3584) := rfl

@[simp] theorem length_block : (m.block a n).length = n := by
  rw [block, List.length_map, List.length_range]

@[simp] theorem getElem_block {i : Nat} (h : i < (m.block a n).length) :
    (m.block a n)[i] = m.byte (a + i) := by
  simp only [block, List.getElem_map, List.getElem_range]

theorem block_succ : m.block a (n + 1) = m.block a n ++ [m.byte (a + n)] := by
  rw [block, List.range_succ, List.map_append, List.map_singleton, block]

theorem block_add (k : Nat) : m.block a (n + k) = m.block a n ++ m.block (a + n) k := by
  simp only [block, List.range_add, List.map_append, List.map_map, Function.comp_def, Nat.add_assoc]

/-- Data lies in memory if its parts lie there, one behind the other. -/
theorem block_eq_append {data' : List Byte} :
    m.block a (data ++ data').length = data ++ data' ↔
      m.block a data.length = data ∧ m.block (a + data.length) data'.length = data' := by
  rw [List.length_append, block_add]
  exact ⟨fun h => List.append_inj h length_block, fun h => by rw [h.1, h.2]⟩

theorem block_congr {m' : Memory} (h : ∀ i, a ≤ i → i < a + n → m.byte i = m'.byte i) :
    m.block a n = m'.block a n :=
  List.map_congr_left fun k hk =>
    h (a + k) (Nat.le_add_right a k) (Nat.add_lt_add_left (List.mem_range.1 hk) a)

/-! ## Bytes after a write -/

/-- **A write replaces the bytes of its range and no other.** -/
theorem byte_store (h : a + data.length ≤ 4096) (i : Nat) :
    (m.store a data).byte i =
      if a ≤ i ∧ i < a + data.length then data.getD (i - a) 0 else m.byte i := by
  by_cases hi : i < 4096
  · rw [← getElem_bytes hi, ← getElem_bytes hi, store, getElem_put]
    by_cases hin : a ≤ i ∧ i < a + data.length
    · rw [dif_pos hin, if_pos hin, List.getD_eq_getElem?_getD, List.getElem?_eq_getElem (by omega),
        Option.getD_some]
    · rw [dif_neg hin, if_neg hin]
  · rw [if_neg (by omega), byte_of_le (by omega), byte_of_le (by omega)]

/-- New memory holds the font, and zeros beyond it. -/
theorem byte_new (a : Nat) : new.byte a = Font.glyphs.getD a 0 := by
  have hnew : new = store ⟨.replicate 4096 0⟩ Font.base Font.glyphs := rfl
  rw [hnew, byte_store (by decide), Font.base, Nat.zero_add, Nat.sub_zero, Font.length_glyphs]
  by_cases hlt : a < 80
  · rw [if_pos ⟨Nat.zero_le a, hlt⟩]
  · have hzero : byte ⟨.replicate 4096 0⟩ a = 0 := by
      by_cases ha : a < 4096
      · rw [← getElem_bytes ha, Vector.getElem_replicate]
      · exact byte_of_le (Nat.le_of_not_lt ha)
    rw [if_neg fun hmem => hlt hmem.2, hzero, List.getD_eq_getElem?_getD,
      List.getElem?_eq_none (Nat.le_of_not_lt hlt), Option.getD_none]

/-- Outside its range a write changes nothing, even one that is cut off at the end. -/
theorem byte_store_of_not_mem {i : Nat} (h : ¬ (a ≤ i ∧ i < a + data.length)) :
    (m.store a data).byte i = m.byte i := by
  by_cases hi : i < 4096
  · rw [← getElem_bytes hi, ← getElem_bytes hi, store, getElem_put, dif_neg h]
  · rw [byte_of_le (by omega), byte_of_le (by omega)]

theorem word_store_of_not_mem {i : Nat} (h : ¬ (a ≤ i ∧ i < a + data.length))
    (h' : ¬ (a ≤ i + 1 ∧ i + 1 < a + data.length)) : (m.store a data).word i = m.word i := by
  rw [word, byte_store_of_not_mem h, byte_store_of_not_mem h', word]

/-- A stored word is read back. -/
theorem word_store (w : Word) (h : a + 2 ≤ 4096) : (m.store a [w.high, w.low]).word a = w := by
  have hlen : a + [w.high, w.low].length ≤ 4096 := h
  have hhigh : (m.store a [w.high, w.low]).byte a = w.high := by
    rw [byte_store hlen, if_pos ⟨Nat.le_refl a, by simp⟩, Nat.sub_self]
    rfl
  have hlow : (m.store a [w.high, w.low]).byte (a + 1) = w.low := by
    rw [byte_store hlen, if_pos ⟨Nat.le_succ a, by simp⟩, Nat.add_sub_cancel_left]
    rfl
  rw [word, hhigh, hlow, Word.high_append_low]

/-- Storing a list in two pieces, one behind the other, stores the whole. -/
theorem store_append (data data' : List Byte) :
    m.store a (data ++ data') = (m.store a data).store (a + data.length) data' := by
  induction data generalizing m a with
  | nil => rfl
  | cons b data ih =>
    have hcons : ∀ l, m.store a (b :: l) = Memory.store ⟨m.bytes.setIfInBounds a b⟩ (a + 1) l :=
      fun _ => rfl
    rw [List.cons_append, hcons, hcons, ih, List.length_cons, Nat.add_assoc, Nat.add_comm 1]

end Chip8.Memory
