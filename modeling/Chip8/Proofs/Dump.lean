import Chip8.Image
import Chip8.Proofs.Hexadecimal

/-!
# Proofs/Dump — a program image is read back from its dump

The dump of an image is its groups with a space between them (`toList_dump`). A group is two bytes, or one at the
end of an odd number, and a byte is two digits (`lowerDigits_byte`): so every group is four characters
wide but for such a last one, and without the spaces the dump is one pair of digits after the other, which can be
read in only one way (`bytes?_digits`).
-/

namespace Chip8

namespace Hex

/-- The number of a digit, which has to be in lower case. -/
def lowerDigit? (c : Char) : Option Nat := if c ∈ digitChars then some (digitChars.idxOf c) else none

/-- The bytes that pairs of digits in lower case write. -/
def bytes? : List Char → Option (List Byte)
  | [] => some []
  | [_] => none
  | c :: d :: cs =>
    (lowerDigit? c).bind fun high =>
      (lowerDigit? d).bind fun low =>
        (bytes? cs).map (BitVec.ofNat 8 (16 * high + low) :: ·)

/-- The digits of some bytes, one byte after the other. -/
def digits (l : List Byte) : List Char := l.flatMap fun b => lowerDigits 2 b.toNat

theorem toList_bytes (l : List Byte) : (bytes l).toList = digits l := String.toList_ofList

theorem lowerDigit?_digitChar {d : Nat} (h : d < 16) : lowerDigit? d.digitChar = some d := by
  revert h d
  decide

/-- A byte is written as two digits: its sixteenth and what is left over. -/
theorem lowerDigits_byte (b : Byte) :
    lowerDigits 2 b.toNat = [(b.toNat / 16).digitChar, (b.toNat % 16).digitChar] := by
  have hb : b.toNat / 16 < 16 := Nat.div_lt_of_lt_mul b.isLt
  by_cases hsmall : b.toNat < 16
  · rw [lowerDigits, Nat.toDigits_of_lt_base hsmall, Nat.div_eq_of_lt hsmall, Nat.mod_eq_of_lt hsmall]
    rfl
  · rw [lowerDigits, Nat.toDigits_of_base_le (by decide) (Nat.le_of_not_lt hsmall), Nat.toDigits_of_lt_base hb]
    rfl

theorem digits_cons (b : Byte) (l : List Byte) :
    digits (b :: l) = (b.toNat / 16).digitChar :: (b.toNat % 16).digitChar :: digits l := by
  rw [digits, List.flatMap_cons, lowerDigits_byte]
  rfl

theorem length_digits (l : List Byte) : (digits l).length = 2 * l.length := by
  induction l with
  | nil => rfl
  | cons b l ih =>
    rw [digits_cons, List.length_cons, List.length_cons, ih, List.length_cons]
    omega

theorem flatten_map_digits (ls : List (List Byte)) : (ls.map digits).flatten = digits ls.flatten := by
  induction ls with
  | nil => rfl
  | cons l ls ih =>
    rw [List.map_cons, List.flatten_cons, ih, List.flatten_cons]
    exact List.flatMap_append.symm

theorem mem_digits {l : List Byte} : ∀ c ∈ digits l, c ∈ digitChars := by
  intro c hc
  obtain ⟨b, -, hc⟩ := List.mem_flatMap.1 hc
  exact mem_lowerDigits c hc

/-- **Digits written for bytes are read as these bytes.** -/
theorem bytes?_digits (l : List Byte) : bytes? (digits l) = some l := by
  induction l with
  | nil => rfl
  | cons b l ih =>
    have hhigh : b.toNat / 16 < 16 := Nat.div_lt_of_lt_mul b.isLt
    have hlow : b.toNat % 16 < 16 := Nat.mod_lt _ (by decide)
    rw [digits_cons, bytes?, lowerDigit?_digitChar hhigh, lowerDigit?_digitChar hlow, ih, Option.bind_some,
      Option.bind_some, Option.map_some, Nat.div_add_mod, BitVec.ofNat_toNat, BitVec.setWidth_eq]

end Hex

/-! ## Groups with a separator between them -/

section

variable {α : Type} {x c : α} {groups : List (List α)}

/-- Without the separator only the groups are left, one after the other. -/
theorem filter_intercalate [BEq α] [LawfulBEq α] (h : ∀ g ∈ groups, x ∉ g) :
    ([x].intercalate groups).filter (· != x) = groups.flatten := by
  induction groups with
  | nil => rfl
  | cons g rest ih =>
    obtain ⟨hg, hrest⟩ := List.forall_mem_cons.1 h
    have hkept : g.filter (· != x) = g :=
      List.filter_eq_self.2 fun c hc => bne_iff_ne.2 fun hx => hg (hx ▸ hc)
    by_cases hnil : rest = []
    · rw [hnil, List.intercalate_singleton, List.flatten_singleton, hkept]
    · have hsep : [x].filter (· != x) = [] := by simp
      rw [List.intercalate_cons_of_ne_nil hnil, List.filter_append, List.filter_append, hkept, hsep, ih hrest,
        List.append_nil, List.flatten_cons]

theorem intercalate_ne_nil (hne : groups ≠ []) (h : ∀ g ∈ groups, g ≠ []) : [x].intercalate groups ≠ [] := by
  obtain ⟨g, rest, rfl⟩ := List.exists_cons_of_ne_nil hne
  have hg : g ≠ [] := h g List.mem_cons_self
  by_cases hnil : rest = []
  · rwa [hnil, List.intercalate_singleton]
  · rw [List.intercalate_cons_of_ne_nil hnil, List.append_assoc]
    exact List.append_ne_nil_of_left_ne_nil hg _

/-- What such a text begins with is in a group, if no group is empty. -/
theorem mem_of_head?_intercalate (h : ∀ g ∈ groups, g ≠ []) (hc : ([x].intercalate groups).head? = some c) :
    ∃ g ∈ groups, c ∈ g := by
  cases groups with
  | nil => cases hc
  | cons g rest =>
    have hg : g ≠ [] := h g List.mem_cons_self
    refine ⟨g, List.mem_cons_self, List.mem_of_head? ?_⟩
    by_cases hnil : rest = []
    · rwa [hnil, List.intercalate_singleton] at hc
    · rwa [List.intercalate_cons_of_ne_nil hnil, List.append_assoc, List.head?_append_of_ne_nil _ hg] at hc

/-- What it ends with is in a group, too. -/
theorem mem_of_getLast?_intercalate (h : ∀ g ∈ groups, g ≠ []) (hc : ([x].intercalate groups).getLast? = some c) :
    ∃ g ∈ groups, c ∈ g := by
  induction groups with
  | nil => cases hc
  | cons g rest ih =>
    have hrest := (List.forall_mem_cons.1 h).2
    by_cases hnil : rest = []
    · rw [hnil, List.intercalate_singleton] at hc
      exact ⟨g, List.mem_cons_self, List.mem_of_getLast? hc⟩
    · rw [List.intercalate_cons_of_ne_nil hnil,
        List.getLast?_append_of_ne_nil _ (intercalate_ne_nil hnil hrest)] at hc
      obtain ⟨g', hg', hmem⟩ := ih hrest hc
      exact ⟨g', List.mem_cons_of_mem g hg', hmem⟩

end

namespace Image

variable {image : Image}

/-! ## The groups of an image -/

theorem length_groups (l : List Byte) : (groups l).length = (l.length + 1) / 2 := by
  fun_induction groups l with
  | case1 => rfl
  | case2 b => rw [List.length_singleton, List.length_singleton]
  | case3 b c rest ih =>
    rw [List.length_cons, ih, List.length_cons, List.length_cons]
    omega

/-- Every group is of two bytes, but for a last one at the end of an odd number. -/
theorem length_getElem_groups (l : List Byte) {j : Nat} (hj : j < (groups l).length) :
    (groups l)[j].length = if 2 * j + 1 = l.length then 1 else 2 := by
  fun_induction groups l generalizing j with
  | case1 => exact absurd hj (Nat.not_lt_zero j)
  | case2 b =>
    obtain rfl : j = 0 := Nat.lt_one_iff.1 hj
    rfl
  | case3 b c rest ih =>
    cases j with
    | zero => rfl
    | succ j =>
      have hlen : 2 * (j + 1) + 1 = (b :: c :: rest).length ↔ 2 * j + 1 = rest.length := by
        simp only [List.length_cons]
        omega
      rw [List.getElem_cons_succ, ih (Nat.lt_of_succ_lt_succ hj), if_congr hlen rfl rfl]

/-- The groups as they are written. -/
def writtenGroups (image : Image) : List (List Char) := (groups image.bytes).map Hex.digits

theorem toList_dump : image.dump.toList = [' '].intercalate image.writtenGroups := by
  rw [dump, String.toList_intercalate, List.map_map, writtenGroups]
  exact congrArg _ (List.map_congr_left fun g _ => Hex.toList_bytes g)

theorem flatten_writtenGroups : image.writtenGroups.flatten = Hex.digits image.bytes := by
  rw [writtenGroups, Hex.flatten_map_digits, flatten_groups]

theorem digit_of_mem_writtenGroups : ∀ g ∈ image.writtenGroups, ∀ c ∈ g, c ∈ Hex.digitChars := by
  intro g hg
  obtain ⟨l, -, rfl⟩ := List.mem_map.1 hg
  exact Hex.mem_digits

/-- **The dump without its spaces is read as the bytes of the image.** -/
theorem bytes?_dump : Hex.bytes? (image.dump.toList.filter (· != ' ')) = some image.bytes := by
  have hdigits : ∀ g ∈ image.writtenGroups, ' ' ∉ g := fun g hg hc =>
    absurd (digit_of_mem_writtenGroups g hg ' ' hc) (by decide)
  rw [toList_dump, filter_intercalate hdigits, flatten_writtenGroups, Hex.bytes?_digits]

theorem length_writtenGroups : image.writtenGroups.length = (image.bytes.length + 1) / 2 := by
  rw [writtenGroups, List.length_map, length_groups]

theorem length_getElem_writtenGroups {j : Nat} (hj : j < image.writtenGroups.length) :
    image.writtenGroups[j].length = if 2 * j + 1 = image.bytes.length then 2 else 4 := by
  have hj' : j < (groups image.bytes).length := by rwa [writtenGroups, List.length_map] at hj
  have hget : image.writtenGroups[j] = Hex.digits (groups image.bytes)[j] := List.getElem_map Hex.digits
  rw [hget, Hex.length_digits, length_getElem_groups _ hj']
  split <;> rfl

theorem ne_nil_of_mem_writtenGroups : ∀ g ∈ image.writtenGroups, g ≠ [] := by
  rintro g hg rfl
  obtain ⟨j, hj, hget⟩ := List.getElem_of_mem hg
  have hlen := length_getElem_writtenGroups hj
  rw [hget, List.length_nil] at hlen
  split at hlen <;> omega

/-- **The dump of a program image loses nothing.** Every list of bytes that fits into the program area is an
image, and the pairs of lower-case digits of its dump, the spaces left out, are exactly these bytes, so other
images have other dumps. The spaces stand between groups and nowhere else: the groups are of four digits, but for
a last one of two digits when the number of bytes is odd, and the dump neither begins nor ends with a space. -/
theorem dump_lossless {bytes : List Byte} (h : bytes.length ≤ 3584) :
    ∃ image, ofBytes bytes = .ok image ∧
      Hex.bytes? (image.dump.toList.filter (· != ' ')) = some bytes ∧
      (∃ gs : List (List Char), image.dump.toList = [' '].intercalate gs ∧ gs.length = (bytes.length + 1) / 2 ∧
        (∀ j (hj : j < gs.length), gs[j].length = if 2 * j + 1 = bytes.length then 2 else 4) ∧
        ∀ g ∈ gs, ∀ c ∈ g, c ∈ Hex.digitChars) ∧
      image.dump.toList.head? ≠ some ' ' ∧ image.dump.toList.getLast? ≠ some ' ' ∧
      ∀ image', image'.dump = image.dump → image' = image := by
  let image : Image := ⟨bytes, h⟩
  have hspace : ¬ ∃ g ∈ image.writtenGroups, ' ' ∈ g := fun ⟨g, hg, hc⟩ =>
    absurd (digit_of_mem_writtenGroups g hg ' ' hc) (by decide)
  refine ⟨image, dif_pos h, bytes?_dump, ?_, ?_, ?_, fun image' hdump => ?_⟩
  · exact ⟨_, toList_dump, length_writtenGroups, fun j hj => length_getElem_writtenGroups hj,
      digit_of_mem_writtenGroups⟩
  · rw [toList_dump]
    exact fun hc => hspace (mem_of_head?_intercalate ne_nil_of_mem_writtenGroups hc)
  · rw [toList_dump]
    exact fun hc => hspace (mem_of_getLast?_intercalate ne_nil_of_mem_writtenGroups hc)
  · have hbytes : Hex.bytes? (image'.dump.toList.filter (· != ' ')) = some image'.bytes := bytes?_dump
    rw [hdump, bytes?_dump] at hbytes
    obtain ⟨bytes', h'⟩ := image'
    obtain rfl : bytes = bytes' := Option.some.inj hbytes
    rfl

/-- Three bytes, the first two with a zero in front. -/
theorem dump_lossless_odd :
    ∃ image, ofBytes [0x00, 0x0e, 0xa2] = .ok image ∧ image.dump = "000e a2" ∧
      Hex.bytes? "000ea2".toList = some [0x00, 0x0e, 0xa2] := by
  obtain ⟨image, himage, hbytes, -⟩ := dump_lossless (by decide : [(0x00 : Byte), 0x0e, 0xa2].length ≤ 3584)
  obtain rfl : ⟨[0x00, 0x0e, 0xa2], by decide⟩ = image := Except.ok.inj himage
  exact ⟨_, himage, by decide, hbytes⟩

end Image

end Chip8
