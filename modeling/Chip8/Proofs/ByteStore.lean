import Chip8.Proofs.Bytes
import Chip8.Proofs.Rows

/-!
# Proofs/ByteStore — memory holds at each address the byte that was stored there last

Bytes, words, data and programs are stored in different ways, and all of them come down to a first address and the
bytes from there on (`Write.run_eq`). What a write stores replaces what was there, so after a row of writes, however
they overlap, each byte is the one stored last, or the one of new memory where nothing was stored (`byte_writes`).
The reading accesses give these bytes one at a time, in pairs and in rows.
-/

namespace Chip8

/-! ## The bytes of a word -/

theorem Word.high_eq (w : Word) : w.high = .ofNat 8 (w.toNat / 256) := by
  apply BitVec.eq_of_toNat_eq
  rw [high, BitVec.extractLsb'_toNat, BitVec.toNat_ofNat, Nat.shiftRight_eq_div_pow]

theorem Word.low_eq (w : Word) : w.low = .ofNat 8 (w.toNat % 256) := by
  apply BitVec.eq_of_toNat_eq
  rw [low, BitVec.extractLsb'_toNat, BitVec.toNat_ofNat, Nat.shiftRight_zero]
  exact (Nat.mod_mod _ _).symm

namespace Memory

variable {m m' : Memory} {a n : Nat}

theorem toNat_word (m : Memory) (a : Nat) : (m.word a).toNat = 256 * (m.byte a).toNat + (m.byte (a + 1)).toNat := by
  rw [word, BitVec.toNat_append, ← Nat.shiftLeft_add_eq_or_of_lt (m.byte (a + 1)).isLt, Nat.shiftLeft_eq,
    Nat.mul_comm]

/-! ## Writes -/

/-- A write to memory. -/
inductive Write where
  /-- Stores a byte at `a`. -/
  | set (a : Nat) (b : Byte)
  /-- Stores a word at `a`. -/
  | setWord (a : Nat) (w : Word)
  /-- Stores data from `a` on. -/
  | write (a : Nat) (data : List Byte)
  /-- Loads a program, or refuses it. -/
  | load (program : List Byte)
deriving DecidableEq

namespace Write

/-- The address of the first byte that it stores. -/
def start : Write → Nat
  | set a _ | setWord a _ | write a _ => a
  | load _ => 0x200

/-- The bytes that it stores, in the order of their addresses. A program that does not fit is refused as a whole. -/
def data : Write → List Byte
  | set _ b => [b]
  | setWord _ w => [.ofNat 8 (w.toNat / 256), .ofNat 8 (w.toNat % 256)]
  | write _ data => data
  | load program => if program.length ≤ 3584 then program else []

/-- The byte that it stores at `a`, if `a` is in its range. -/
def byte? (a : Nat) (w : Write) : Option Byte := if w.start ≤ a then w.data[a - w.start]? else none

/-- The memory after it. -/
def run (m : Memory) : Write → Except Fault Memory
  | set a b => m.set a b
  | setWord a w => m.setWord a w
  | write a data => m.write a data
  | load program =>
    match m.load program with
    | .ok loaded => .ok loaded
    | .error _ => .ok m

end Write

/-- The memory after some writes, one after the other. -/
def writes (m : Memory) (ws : List Write) : Except Fault Memory := ws.foldlM Write.run m

/-- The byte that was stored last at `a`; the font's, or zero, if none was. -/
def lastByte (ws : List Write) (a : Nat) : Byte :=
  (ws.reverse.findSome? (Write.byte? a)).getD (Font.glyphs.getD a 0)

theorem lastByte_concat (ws : List Write) (w : Write) (a : Nat) :
    lastByte (ws ++ [w]) a = (w.byte? a).getD (lastByte ws a) := by
  rw [lastByte, findSome?_reverse_concat]
  cases w.byte? a <;> rfl

/-! ## One write -/

/-- **Every write stores a row of bytes, if they all lie in memory.** -/
theorem Write.run_eq (m : Memory) (w : Write) : w.run m =
    if w.start + w.data.length ≤ 4096 then .ok (m.store w.start w.data)
    else .error (.addressRange w.start w.data.length) := by
  cases w with
  | set a b => rfl
  | setWord a w =>
    rw [run, Memory.setWord, Word.high_eq, Word.low_eq]
    rfl
  | write a data => rfl
  | load program =>
    rw [run, load_eq, start, data]
    by_cases hfits : program.length ≤ 3584
    · rw [if_pos hfits, if_pos hfits, if_pos (by omega)]
    · -- a refusal is the write of nothing at all
      rw [if_neg hfits, if_neg hfits, if_pos (by decide)]
      rfl

theorem Write.run_eq_error_iff {w : Write} {f : Fault} : w.run m = .error f ↔
    f = .addressRange w.start w.data.length ∧ 4096 < w.start + w.data.length := by
  rw [run_eq, ite_eq_error_iff, Nat.not_le]

/-- **A write leaves its own bytes in its range**, and the others as they were. -/
theorem Write.byte_run {w : Write} (h : w.run m = .ok m') (a : Nat) : m'.byte a = (w.byte? a).getD (m.byte a) := by
  rw [run_eq, ite_eq_ok_iff] at h
  obtain ⟨hin, rfl⟩ := h
  rw [byte_store hin, byte?]
  by_cases hstart : w.start ≤ a
  · rw [if_pos hstart]
    by_cases hlt : a < w.start + w.data.length
    · rw [if_pos ⟨hstart, hlt⟩, List.getD_eq_getElem?_getD, List.getElem?_eq_getElem (by omega)]
      rfl
    · rw [if_neg fun hmem => hlt hmem.2, List.getElem?_eq_none (by omega)]
      rfl
  · rw [if_neg hstart, if_neg fun hmem => hstart hmem.1]
    rfl

/-! ## A row of writes -/

/-- **Each byte is the one stored last.** By induction on the writes. -/
theorem byte_writes {ws : List Write} (h : new.writes ws = .ok m) : ∀ a, m.byte a = lastByte ws a := by
  refine foldlM_keeps (P := fun ws m => ∀ a, m.byte a = lastByte ws a) byte_new ?_ h
  intro ws m w m' hbytes hrun a
  rw [w.byte_run hrun, hbytes, lastByte_concat]

/-! ## Reading -/

theorem get_eq_error_iff {f : Fault} : m.get a = .error f ↔ f = .addressRange a 1 ∧ 4096 < a + 1 := by
  rw [get, dite_eq_error_iff, Nat.not_lt, Nat.lt_succ_iff]

theorem getWord_eq_error_iff {f : Fault} : m.getWord a = .error f ↔ f = .addressRange a 2 ∧ 4096 < a + 2 := by
  rw [getWord, dite_eq_error_iff, Nat.not_le]

theorem slice_eq_error_iff {f : Fault} : m.slice a n = .error f ↔ f = .addressRange a n ∧ 4096 < a + n := by
  rw [slice, dite_eq_error_iff, Nat.not_le]

/-- **Memory gives back what was stored last**, whatever was stored before. After a row of writes that are not
refused, on new memory, a byte below 4096 is the one stored last at its address, where data lies in order from its
first address on and a word has its high byte first; where nothing was stored it is the font's, or zero. A word is
read from two such bytes, and a slice lists them in order. An access to `k` bytes from `a` on, for reading or for
writing, is refused exactly if `a + k` is greater than 4096, also if `k` is 0. -/
theorem bytes_stored_last {ws : List Write} {m : Memory} (h : new.writes ws = .ok m) :
    (∀ a < 4096, m.get a = .ok (lastByte ws a)) ∧
    (∀ a ≤ 4094, ∃ w, m.getWord a = .ok w ∧
      w.toNat = 256 * (lastByte ws a).toNat + (lastByte ws (a + 1)).toNat) ∧
    (∀ a n, a + n ≤ 4096 → m.slice a n = .ok ((List.range n).map fun i => lastByte ws (a + i))) ∧
    (∀ a f, (m.get a = .error f ↔ f = .addressRange a 1 ∧ 4096 < a + 1) ∧
      (m.getWord a = .error f ↔ f = .addressRange a 2 ∧ 4096 < a + 2) ∧
      ∀ n, m.slice a n = .error f ↔ f = .addressRange a n ∧ 4096 < a + n) ∧
    ∀ (w : Write) f, new.writes (ws ++ [w]) = .error f ↔
      f = .addressRange w.start w.data.length ∧ 4096 < w.start + w.data.length := by
  have hbytes := byte_writes h
  refine ⟨fun a ha => ?_, fun a ha => ?_, fun a n hin => ?_,
    fun a f => ⟨get_eq_error_iff, getWord_eq_error_iff, fun n => slice_eq_error_iff⟩, fun w f => ?_⟩
  · rw [get_eq_byte ha, hbytes]
  · refine ⟨_, getWord_eq_word (Nat.add_le_add_right ha 2), ?_⟩
    rw [toNat_word, hbytes, hbytes]
  · rw [slice_eq_block hin, block]
    simp only [hbytes]
  · rw [writes, foldlM_concat h]
    exact w.run_eq_error_iff

/-- Data, a word across its middle, and a program over the end of both: each byte is the one stored last. The last
byte of memory can be stored, but no word there. -/
theorem bytes_stored_last_overlapping :
    let ws : List Write := [.write 0x1fe [1, 2, 3, 4], .setWord 0x1ff 0xabcd, .load [0x60], .set 0xfff 7]
    ∃ m, new.writes ws = .ok m ∧ m.slice 0x1fe 4 = .ok [1, 0xab, 0x60, 4] ∧ m.get 0xfff = .ok 7 ∧
      m.get 0 = .ok 0xf0 ∧ (∃ w, m.getWord 0x1ff = .ok w ∧ w.toNat = 0xab60) ∧ m.slice 4096 0 = .ok [] ∧
      m.slice 4097 0 = .error (.addressRange 4097 0) ∧
      new.writes (ws ++ [.setWord 0xfff 0]) = .error (.addressRange 0xfff 2) := by
  intro ws
  obtain ⟨m, hrun⟩ : ∃ m, new.writes ws = .ok m := ⟨_, rfl⟩
  obtain ⟨hget, hword, hslice, hread, hwrite⟩ := bytes_stored_last hrun
  obtain ⟨w, hw, hvalue⟩ := hword 0x1ff (by decide)
  exact ⟨m, hrun, (hslice 0x1fe 4 (by decide)).trans (by decide), (hget 0xfff (by decide)).trans (by decide),
    (hget 0 (by decide)).trans (by decide), ⟨w, hw, hvalue.trans (by decide)⟩, hslice 4096 0 (by decide),
    ((hread 4097 _).2.2 0).2 ⟨rfl, by decide⟩, (hwrite (.setWord 0xfff 0) _).2 ⟨rfl, by decide⟩⟩

end Memory

end Chip8
