import Chip8.Instruction.Mnemonic
import Chip8.Proofs.Encoding
import Chip8.Proofs.Hexadecimal

/-!
# Proofs/Mnemonics — a trace line identifies its instruction

A mnemonic is words with blanks and commas between them, and each word says by its first letters what it is:
a register, a number, or a name of its own (`Operand.ofWord`). So a mnemonic can be read back
(`ofMnemonic_mnemonic`), and no two instructions have the same one. With what two opcodes have in common that
stand for one instruction, this says which opcodes are traced alike.
-/

namespace Chip8

/-! ## Texts as words -/

namespace Trace

/-- A character between words. -/
def isBreak (c : Char) : Bool := c = ' ' || c = ','

/-- The words of a text, in order. -/
def words (text : List Char) : List (List Char) := (text.splitOnP isBreak).filter (· ≠ [])

/-- What a word stands for. -/
inductive Operand where
  /-- A general register. -/
  | register (x : Nat)
  /-- A byte, an address or a count. -/
  | number (n : Nat)
  /-- The name of an instruction or of a special register. -/
  | name (text : String)
deriving DecidableEq, Repr

/-- A word that starts with `V` is a register, and one of lower-case digits is a number. -/
def Operand.ofWord : List Char → Operand
  | 'V' :: cs => register (Hex.value cs)
  | cs => if cs.all Hex.digitChars.contains then number (Hex.value cs) else name (String.ofList cs)

/-- What the words of a text stand for. -/
def operands (text : List Char) : List Operand := (words text).map Operand.ofWord

theorem operands_append_break {c : Char} (hc : isBreak c = true) (x y : List Char) :
    operands (x ++ c :: y) = operands x ++ operands y := by
  rw [operands, words, List.splitOnP_append_cons x y hc, List.filter_append, List.map_append]
  rfl

theorem operands_nil : operands [] = [] := rfl

theorem operands_space (y : List Char) : operands (' ' :: y) = operands y :=
  operands_append_break (by decide) [] y

theorem operands_word {w : List Char} (hne : w ≠ []) (hword : ∀ c ∈ w, isBreak c = false) :
    operands w = [Operand.ofWord w] := by
  have hkept : [w].filter (· ≠ []) = [w] := List.filter_eq_self.2 fun v hv =>
    decide_eq_true (List.mem_singleton.1 hv ▸ hne)
  rw [operands, words, List.splitOnP_eq_singleton hword, hkept, List.map_singleton]

theorem isBreak_digit {c : Char} (h : c ∈ Hex.digitChars) :
    isBreak c = false ∧ isBreak c.toUpper = false ∧ c ≠ 'V' := by
  have hall : Hex.digitChars.all (fun c => decide (isBreak c = false ∧ isBreak c.toUpper = false ∧ c ≠ 'V')) := by
    decide
  exact of_decide_eq_true (List.all_eq_true.1 hall c h)

theorem operands_lower (width n : Nat) : operands (Hex.lower width n).toList = [.number n] := by
  have hmem : ∀ c ∈ Hex.lowerDigits width n, c ∈ Hex.digitChars := Hex.mem_lowerDigits
  have hall : (Hex.lowerDigits width n).all Hex.digitChars.contains = true :=
    List.all_eq_true.2 fun c hc => List.contains_iff_mem.2 (hmem c hc)
  rw [Hex.lower, String.toList_ofList, operands_word (Hex.lowerDigits_ne_nil width n) fun c hc =>
    (isBreak_digit (hmem c hc)).1, Operand.ofWord, if_pos hall, Hex.value_lowerDigits]
  intro cs h
  exact (isBreak_digit (hmem 'V' (h ▸ List.mem_cons_self))).2.2 rfl

theorem operands_register (x : Nat) : operands (Instruction.registerName x).toList = [.register x] := by
  have hword : ∀ c ∈ 'V' :: (Nat.toDigits 16 x).map Char.toUpper, isBreak c = false := by
    intro c hc
    obtain rfl | hc := List.mem_cons.1 hc
    · decide
    · obtain ⟨d, hd, rfl⟩ := List.mem_map.1 hc
      exact (isBreak_digit (Hex.mem_toDigits x d hd)).2.1
  have htext : (Instruction.registerName x).toList = 'V' :: (Nat.toDigits 16 x).map Char.toUpper := by
    rw [Instruction.registerName, Hex.upper, String.toList_append, String.toList_ofList, String.toList_ofList,
      List.singleton_append]
  rw [htext, operands_word (List.cons_ne_nil _ _) hword, Operand.ofWord, Hex.value_upperDigits]

end Trace

namespace Instruction

open Trace

theorem operands_append_space (a b : String) :
    operands (a ++ " " ++ b).toList = operands a.toList ++ operands b.toList := by
  rw [String.toList_append, String.toList_append, List.append_assoc]
  exact operands_append_break (by decide) a.toList b.toList

theorem operands_append_comma (a b : String) :
    operands (a ++ ", " ++ b).toList = operands a.toList ++ operands b.toList := by
  rw [String.toList_append, String.toList_append, List.append_assoc]
  exact (operands_append_break (by decide) a.toList (' ' :: b.toList)).trans
    (congrArg _ (operands_space b.toList))

theorem operands_append_of_last {a : String} (h : a.toList.getLast? = some ' ') (b : String) :
    operands (a ++ b).toList = operands a.toList ++ operands b.toList := by
  obtain ⟨l, hl⟩ := List.getLast?_eq_some_iff.1 h
  rw [String.toList_append, hl, List.append_assoc, operands_append_break (by decide) l [], operands_nil,
    List.append_nil]
  exact operands_append_break (by decide) l b.toList

theorem operands_append_of_head {b : String} (h : b.toList.head? = some ',') (a : String) :
    operands (a ++ b).toList = operands a.toList ++ operands b.toList := by
  obtain ⟨l, hl⟩ := List.head?_eq_some_iff.1 h
  rw [String.toList_append, hl, operands_append_break (by decide), ← List.nil_append (',' :: l),
    operands_append_break (by decide) [] l, operands_nil, List.nil_append]

/-- The instruction that these words write. -/
def ofOperands : List Operand → Option Instruction
  | [.name "CLS"] => some clearScreen
  | [.name "RET"] => some ret
  | [.name "JP", .number nnn] => some (jump (.ofNat 16 nnn))
  | [.name "CALL", .number nnn] => some (call (.ofNat 16 nnn))
  | [.name "LD", .name "I", .number nnn] => some (setIndex (.ofNat 16 nnn))
  | [.name "JP", .register 0, .number nnn] => some (jumpOffset (.ofNat 16 nnn))
  | [.name name, .register x, .number nn] =>
    match name with
    | "SE" => some (skipEqByte x (.ofNat 8 nn))
    | "SNE" => some (skipNeByte x (.ofNat 8 nn))
    | "LD" => some (setByte x (.ofNat 8 nn))
    | "ADD" => some (addByte x (.ofNat 8 nn))
    | "RND" => some (random x (.ofNat 8 nn))
    | _ => none
  | [.name name, .register x, .register y] =>
    match name with
    | "SE" => some (skipEq x y)
    | "LD" => some (move x y)
    | "OR" => some (or x y)
    | "AND" => some (and x y)
    | "XOR" => some (xor x y)
    | "ADD" => some (add x y)
    | "SUB" => some (sub x y)
    | "SHR" => some (shiftRight x y)
    | "SUBN" => some (subFrom x y)
    | "SHL" => some (shiftLeft x y)
    | "SNE" => some (skipNe x y)
    | _ => none
  | [.name "DRW", .register x, .register y, .number n] => some (draw x y (.ofNat 8 n))
  | [.name "SKP", .register x] => some (skipKeyDown x)
  | [.name "SKNP", .register x] => some (skipKeyUp x)
  | [.name "ADD", .name "I", .register x] => some (addIndex x)
  | [.name "LD", .name place, .register x] =>
    match place with
    | "DT" => some (setDelay x)
    | "ST" => some (setSound x)
    | "F" => some (setGlyph x)
    | "B" => some (storeDecimal x)
    | "[I]" => some (storeRegisters x)
    | _ => none
  | [.name "LD", .register x, .name place] =>
    match place with
    | "DT" => some (getDelay x)
    | "K" => some (awaitKey x)
    | "[I]" => some (loadRegisters x)
    | _ => none
  | _ => none

/-- The instruction that a text writes. -/
def ofMnemonic (text : String) : Option Instruction := ofOperands (operands text.toList)

section

variable {i : Instruction} {name : String} {x y : Nat}

theorem ofMnemonic_withAddress {f : Word → Instruction} {nnn : Word}
    (h : ∀ n, ofOperands (operands name.toList ++ [.number n]) = some (f (.ofNat 16 n))) :
    ofMnemonic (withAddress name nnn) = some (f nnn) := by
  rw [ofMnemonic, withAddress, operands_append_space, operands_lower, h, BitVec.ofNat_toNat,
    BitVec.setWidth_eq]

theorem ofMnemonic_withByte {f : Byte → Instruction} {nn : Byte}
    (h : ∀ n, ofOperands (operands name.toList ++ [.register x] ++ [.number n]) = some (f (.ofNat 8 n))) :
    ofMnemonic (withByte name x nn) = some (f nn) := by
  rw [ofMnemonic, withByte, operands_append_comma, operands_append_space, operands_register, operands_lower, h,
    BitVec.ofNat_toNat, BitVec.setWidth_eq]

theorem ofMnemonic_withRegisters
    (h : ofOperands (operands name.toList ++ [.register x] ++ [.register y]) = some i) :
    ofMnemonic (withRegisters name x y) = some i := by
  rw [ofMnemonic, withRegisters, operands_append_comma, operands_append_space, operands_register,
    operands_register, h]

theorem ofMnemonic_register (hname : name.toList.getLast? = some ' ')
    (h : ofOperands (operands name.toList ++ [.register x]) = some i) :
    ofMnemonic (name ++ registerName x) = some i := by
  rw [ofMnemonic, operands_append_of_last hname, operands_register, h]

theorem ofMnemonic_from {place : String} (hname : name.toList.getLast? = some ' ')
    (hplace : place.toList.head? = some ',')
    (h : ofOperands (operands name.toList ++ [.register x] ++ operands place.toList) = some i) :
    ofMnemonic (name ++ registerName x ++ place) = some i := by
  rw [ofMnemonic, operands_append_of_head hplace, operands_append_of_last hname, operands_register, h]

end

/-- By cases on the instruction, grouped by the form of its text; what remains is to compare names. -/
theorem ofMnemonic_mnemonic (i : Instruction) : ofMnemonic i.mnemonic = some i := by
  cases i with
  | clearScreen | ret => rfl
  | jump nnn | call nnn | setIndex nnn | jumpOffset nnn => exact ofMnemonic_withAddress fun _ => rfl
  | skipEqByte x nn | skipNeByte x nn | setByte x nn | addByte x nn | random x nn =>
    exact ofMnemonic_withByte fun _ => rfl
  | skipEq x y | move x y | or x y | and x y | xor x y | add x y | sub x y | shiftRight x y | subFrom x y
  | shiftLeft x y | skipNe x y => exact ofMnemonic_withRegisters rfl
  | draw x y n =>
    rw [mnemonic, ofMnemonic, operands_append_comma, withRegisters, operands_append_comma,
      operands_append_space, operands_register, operands_register, operands_lower]
    exact congrArg (some ∘ draw x y) (by rw [BitVec.ofNat_toNat, BitVec.setWidth_eq])
  | skipKeyDown x | skipKeyUp x | setDelay x | setSound x | addIndex x | setGlyph x | storeDecimal x
  | storeRegisters x => exact ofMnemonic_register rfl rfl
  | getDelay x | awaitKey x | loadRegisters x => exact ofMnemonic_from rfl rfl rfl

theorem mnemonic_injective {i j : Instruction} (h : i.mnemonic = j.mnemonic) : i = j := by
  rw [← Option.some.injEq, ← ofMnemonic_mnemonic i, ← ofMnemonic_mnemonic j, h]

/-- **A trace line identifies its instruction**, and the opcodes traced alike are those that differ in nothing
but a digit that their group ignores. -/
theorem mnemonic_identifies :
    (∀ i j : Instruction, i.mnemonic = j.mnemonic → i = j) ∧
    ∀ (a b : Opcode) (i j : Instruction), decode a = some i → decode b = some j →
      (i.mnemonic = j.mnemonic ↔
        a = b ∨ (a.group = 5 ∧ b.group = 5 ∨ a.group = 9 ∧ b.group = 9) ∧
          a.extractLsb' 4 12 = b.extractLsb' 4 12) := by
  refine ⟨fun i j => mnemonic_injective, fun a b i j ha hb => ?_⟩
  rw [← decode_eq_decode_iff ha, ha, hb, Option.some.injEq]
  exact ⟨mnemonic_injective, congrArg mnemonic⟩

theorem mnemonic_identifies_skipEq :
    decode 0x5120 = some (skipEq 1 2) ∧ decode 0x512f = some (skipEq 1 2) ∧
      ((skipEq 1 2).mnemonic = (skipEq 1 2).mnemonic ↔
        (0x5120 : Opcode) = 0x512f ∨
          ((0x5120 : Opcode).group = 5 ∧ (0x512f : Opcode).group = 5 ∨
            (0x5120 : Opcode).group = 9 ∧ (0x512f : Opcode).group = 9) ∧
          (0x5120 : Opcode).extractLsb' 4 12 = (0x512f : Opcode).extractLsb' 4 12) := by
  have ha : decode 0x5120 = some (skipEq 1 2) := by decide
  have hb : decode 0x512f = some (skipEq 1 2) := by decide
  exact ⟨ha, hb, mnemonic_identifies.2 _ _ _ _ ha hb⟩

end Instruction

end Chip8
