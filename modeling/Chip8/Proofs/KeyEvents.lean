import Chip8.Keyboard.Terminal
import Mathlib.Data.List.Basic

/-!
# Proofs/KeyEvents — what a row of key events leaves in a keypad

A key map never holds two pairs that share a member (`KeyMap.oneToOne_ofList`), so looking up a character and
looking up a code undo each other. An event does one of three things, and which one can be told from the event
(`TerminalKeypad.handles`): it asks to stop, or it presses a code, or nothing comes of it. What a keypad shows
after a row of events is then read off the events, by induction.
-/

namespace Chip8.Keyboard

namespace KeyMap

variable {m : KeyMap} {key ch : Char} {code : Byte}

/-! ## Both ways through a key map -/

/-- No two pairs share a character or a code. -/
def OneToOne (m : KeyMap) : Prop := m.pairs.Pairwise fun p q => p.1 ≠ q.1 ∧ p.2 ≠ q.2

theorem OneToOne.insert (h : m.OneToOne) (key : Char) (code : Byte) : (m.insert key code).OneToOne := by
  refine List.pairwise_cons.2 ⟨fun p hp => ?_, h.filter _⟩
  obtain ⟨-, hp⟩ := List.mem_filter.1 hp
  simpa [ne_comm] using hp

/-- **A key map is one to one**, whatever pairs went into it. -/
theorem oneToOne_ofList (l : List (Char × Byte)) : (ofList l).OneToOne := by
  have hfold : ∀ m : KeyMap, m.OneToOne → (l.foldl (fun m p => m.insert p.1 p.2) m).OneToOne := by
    induction l with
    | nil => exact fun _ h => h
    | cons p l ih => exact fun m h => ih _ (h.insert p.1 p.2)
  exact hfold empty List.Pairwise.nil

/-- The pairs before a pair share nothing with it. -/
theorem OneToOne.split (h : m.OneToOne) (hmem : (key, code) ∈ m.pairs) :
    ∃ before after, m.pairs = before ++ (key, code) :: after ∧ ∀ p ∈ before, p.1 ≠ key ∧ p.2 ≠ code := by
  obtain ⟨before, after, hpairs⟩ := List.append_of_mem hmem
  rw [OneToOne, hpairs, List.pairwise_append] at h
  exact ⟨before, after, hpairs, fun p hp => h.2.2 p hp (key, code) List.mem_cons_self⟩

theorem OneToOne.lookup_eq_some_iff (h : m.OneToOne) :
    m.pairs.lookup key = some code ↔ (key, code) ∈ m.pairs := by
  rw [List.lookup_eq_some_iff]
  constructor
  · rintro ⟨before, after, hpairs, -⟩
    rw [hpairs]
    exact List.mem_append_right _ List.mem_cons_self
  · intro hmem
    obtain ⟨before, after, hpairs, happart⟩ := h.split hmem
    exact ⟨before, after, hpairs, fun p hp => bne_iff_ne.2 (happart p hp).1.symm⟩

theorem OneToOne.keyFor_eq_some_iff (h : m.OneToOne) :
    m.keyFor code = some key ↔ (key, code) ∈ m.pairs := by
  rw [keyFor, Option.map_eq_some_iff]
  constructor
  · rintro ⟨⟨key', code'⟩, hfind, rfl⟩
    obtain rfl : code' = code := by simpa using List.find?_some hfind
    exact List.mem_of_find?_eq_some hfind
  · intro hmem
    obtain ⟨before, after, hpairs, happart⟩ := h.split hmem
    refine ⟨(key, code), List.find?_eq_some_iff_append.2 ⟨decide_eq_true rfl, before, after, hpairs, ?_⟩, rfl⟩
    exact fun p hp => by simpa using (happart p hp).2

/-- **A character has a code exactly if the code has that character**, in lower case. -/
theorem OneToOne.codeFor_eq_some_iff (h : m.OneToOne) :
    m.codeFor ch = some code ↔ m.keyFor code = some ch.toLower := by
  rw [codeFor, h.lookup_eq_some_iff, h.keyFor_eq_some_iff]

/-- Its codes are those of the sixteen keys. -/
def OfKeypad (m : KeyMap) : Prop := ∀ ch code, m.codeFor ch = some code → code.toNat < 16

theorem ofKeypad_ofLayout (layout : Layout) : (ofLayout layout).OfKeypad := by
  have hall : ∀ p ∈ (ofLayout layout).pairs, p.2.toNat < 16 := by
    cases layout <;> decide
  exact fun ch code h => hall _ ((oneToOne_ofList _).lookup_eq_some_iff.1 h)

theorem exists_keyFor (layout : Layout) (hcode : code.toNat < 16) :
    ∃ key, (ofLayout layout).keyFor code = some key := by
  have hall : ∀ n < 16, ((ofLayout layout).keyFor (BitVec.ofNat 8 n)).isSome = true := by
    cases layout <;> decide
  have hkey := hall _ hcode
  rw [BitVec.ofNat_toNat, BitVec.setWidth_eq] at hkey
  exact Option.isSome_iff_exists.1 hkey

end KeyMap

/-! ## One event -/

namespace KeyEvent

/-- It asks to stop: the escape key, or the letter c while control is held. -/
def AsksToStop (e : KeyEvent) : Prop := e.key = .escape ∨ (e.key = .char 'c' ∧ e.ctrl = true)

/-- It presses a code: it enters a character that has this code, and does not ask to stop. -/
def Presses (m : KeyMap) (e : KeyEvent) (code : Byte) : Prop :=
  ¬ e.AsksToStop ∧ ∃ ch, e.key = .char ch ∧ m.codeFor ch = some code

end KeyEvent

namespace TerminalKeypad

variable {pad : TerminalKeypad} {e : KeyEvent} {code : Byte}

/-- The keypad after a code was reported. -/
def report (pad : TerminalKeypad) (code : Byte) : TerminalKeypad :=
  { pad with lastPressed := pad.lastPressed.setIfInBounds code.toNat pad.now }

/-- What an event does. -/
inductive Handles (pad : TerminalKeypad) (e : KeyEvent) : Option Byte × TerminalKeypad → Prop
  /-- It raises the quit flag. -/
  | stop (asks : e.AsksToStop) : Handles pad e (none, { pad with quit := true })
  /-- It reports the code it presses. -/
  | press {code : Byte} (presses : e.Presses pad.keymap code) : Handles pad e (some code, pad.report code)
  /-- Nothing comes of it. -/
  | none (noStop : ¬ e.AsksToStop) (noCode : ∀ code, ¬ e.Presses pad.keymap code) : Handles pad e (none, pad)

/-- **Every event does one of these.** -/
theorem handles (pad : TerminalKeypad) (e : KeyEvent) : pad.Handles e (pad.handleKey e) := by
  rw [handleKey]
  split
  case h_1 hkey => exact .stop (.inl hkey)
  case h_2 ch hkey =>
    split
    case isTrue hstop => exact .stop (.inr ⟨by rw [hkey, hstop.1], hstop.2⟩)
    case isFalse hgo =>
      have noStop : ¬ e.AsksToStop := by
        rintro (hescape | ⟨hc, hctrl⟩)
        · exact absurd (hkey.symm.trans hescape) nofun
        · exact hgo ⟨Key.char.inj (hkey.symm.trans hc), hctrl⟩
      cases hcode : pad.keymap.codeFor ch with
      | some code => exact .press ⟨noStop, ch, hkey, hcode⟩
      | none =>
        refine .none noStop fun code ⟨_, ch', hkey', hcode'⟩ => ?_
        obtain rfl := Key.char.inj (hkey.symm.trans hkey')
        exact absurd (hcode.symm.trans hcode') nofun
  case h_3 hkey =>
    refine .none ?_ fun code ⟨_, ch, hch, _⟩ => absurd (hkey.symm.trans hch) nofun
    rintro (hescape | ⟨hc, -⟩)
    · exact absurd (hkey.symm.trans hescape) nofun
    · exact absurd (hkey.symm.trans hc) nofun

/-- An event presses one code at most. -/
theorem presses_unique {m : KeyMap} {code' : Byte} (h : e.Presses m code) (h' : e.Presses m code') : code = code' := by
  obtain ⟨-, ch, hkey, hcode⟩ := h
  obtain ⟨-, ch', hkey', hcode'⟩ := h'
  obtain rfl := Key.char.inj (hkey.symm.trans hkey')
  exact Option.some.inj (hcode.symm.trans hcode')

/-! ## One event after the other -/

/-- A key event and the time at which it is taken in. -/
structure Arrival where
  /-- The event. -/
  event : KeyEvent
  /-- The time. -/
  time : Nat
deriving DecidableEq, Repr

/-- Takes in an event at its time; gives the code it pressed, if any. -/
def take (pad : TerminalKeypad) (a : Arrival) : Option Byte × TerminalKeypad :=
  { pad with now := a.time }.handleKey a.event

/-- The keypad that has taken in some events, one after the other. -/
def takeAll (pad : TerminalKeypad) (arrivals : List Arrival) : TerminalKeypad :=
  arrivals.foldl (fun pad a => (pad.take a).2) pad

variable {a : Arrival} {arrivals : List Arrival}

theorem handles_take (pad : TerminalKeypad) (a : Arrival) :
    Handles { pad with now := a.time } a.event (pad.take a) := handles _ _

theorem keymap_take : (pad.take a).2.keymap = pad.keymap := by
  have h := handles_take pad a
  generalize pad.take a = taken at h
  cases h <;> rfl

/-- The code that is given is the one that the event presses. -/
theorem take_eq_some_iff : (pad.take a).1 = some code ↔ a.event.Presses pad.keymap code := by
  have h := handles_take pad a
  generalize pad.take a = taken at h
  cases h with
  | stop asks => exact ⟨nofun, fun h => absurd asks h.1⟩
  | press presses =>
    exact ⟨fun h => Option.some.inj h ▸ presses, fun h => congrArg some (presses_unique presses h)⟩
  | none noStop noCode => exact ⟨nofun, fun h => absurd h (noCode code)⟩

/-- It is the one whose time is now that of the event, and no other time changes. -/
theorem lastPressed_take : (pad.take a).2.lastPressed =
    match (pad.take a).1 with
    | some code => pad.lastPressed.setIfInBounds code.toNat (some a.time)
    | none => pad.lastPressed := by
  have h := handles_take pad a
  generalize pad.take a = taken at h ⊢
  cases h <;> rfl

/-- The quit flag is raised by an event that asks to stop, and never lowered. -/
theorem quit_take_iff : (pad.take a).2.quit = true ↔ pad.quit = true ∨ a.event.AsksToStop := by
  have h := handles_take pad a
  generalize pad.take a = taken at h ⊢
  cases h with
  | stop asks => exact ⟨fun _ => .inr asks, fun _ => rfl⟩
  | press presses => exact (or_iff_left presses.1).symm
  | none noStop noCode => exact (or_iff_left noStop).symm

theorem mem_pressedCodes {n : Nat} : n ∈ pad.pressedCodes ↔ ∃ time, pad.lastPressed[n]? = some (some time) := by
  rw [pressedCodes, List.mem_filter, List.mem_range]
  constructor
  · rintro ⟨hn, hsome⟩
    rw [Vector.getElem?_eq_getElem hn, Option.getD_some] at hsome
    obtain ⟨time, htime⟩ := Option.isSome_iff_exists.1 hsome
    exact ⟨time, by rw [Vector.getElem?_eq_getElem hn, htime]⟩
  · rintro ⟨time, htime⟩
    obtain ⟨hn, -⟩ := Vector.getElem?_eq_some_iff.1 htime
    exact ⟨hn, by rw [htime]; rfl⟩

/-- An event adds the code that it presses to those reported so far, and no other. -/
theorem mem_pressedCodes_take (hcodes : pad.keymap.OfKeypad) {n : Nat} :
    n ∈ (pad.take a).2.pressedCodes ↔
      n ∈ pad.pressedCodes ∨ ∃ code, a.event.Presses pad.keymap code ∧ code.toNat = n := by
  simp only [mem_pressedCodes, lastPressed_take, ← take_eq_some_iff]
  cases htaken : (pad.take a).1 with
  | none => simp only [reduceCtorEq, false_and, exists_false, or_false]
  | some code =>
    obtain ⟨-, ch, -, hcode⟩ := take_eq_some_iff.1 htaken
    have hlt := hcodes ch code hcode
    simp only [Vector.getElem?_setIfInBounds, Option.some.injEq, exists_eq_left']
    by_cases hn : code.toNat = n
    · simp [hn, hn ▸ hlt]
    · simp [hn]

/-- If a code was not reported at this very time before, its time tells whether the event gave it. -/
theorem take_eq_some_iff_lastPressed (hcodes : pad.keymap.OfKeypad)
    (hfresh : pad.lastPressed[code.toNat]? ≠ some (some a.time)) :
    (pad.take a).1 = some code ↔ (pad.take a).2.lastPressed[code.toNat]? = some (some a.time) := by
  rw [lastPressed_take]
  cases htaken : (pad.take a).1 with
  | none => exact ⟨nofun, fun h => absurd h hfresh⟩
  | some given =>
    obtain ⟨-, ch, -, hgiven⟩ := take_eq_some_iff.1 htaken
    have hlt := hcodes ch given hgiven
    rw [Vector.getElem?_setIfInBounds, Option.some.injEq]
    by_cases heq : given.toNat = code.toNat
    · rw [if_pos heq, if_pos hlt]
      exact ⟨fun _ => rfl, fun _ => BitVec.eq_of_toNat_eq heq⟩
    · rw [if_neg heq]
      exact ⟨fun h => absurd (congrArg BitVec.toNat h) heq, fun h => absurd h hfresh⟩

/-! ## Any number of events -/

theorem keymap_takeAll : (pad.takeAll arrivals).keymap = pad.keymap := by
  induction arrivals generalizing pad with
  | nil => rfl
  | cons a arrivals ih => exact ih.trans keymap_take

theorem quit_takeAll_iff :
    (pad.takeAll arrivals).quit = true ↔ pad.quit = true ∨ ∃ a ∈ arrivals, a.event.AsksToStop := by
  induction arrivals generalizing pad with
  | nil => exact (or_iff_left fun ⟨_, ha, _⟩ => List.not_mem_nil ha).symm
  | cons a arrivals ih =>
    rw [List.exists_mem_cons_iff, ← or_assoc, ← quit_take_iff]
    exact ih

theorem mem_pressedCodes_takeAll (hcodes : pad.keymap.OfKeypad) {n : Nat} :
    n ∈ (pad.takeAll arrivals).pressedCodes ↔
      n ∈ pad.pressedCodes ∨ ∃ a ∈ arrivals, ∃ code, a.event.Presses pad.keymap code ∧ code.toNat = n := by
  induction arrivals generalizing pad with
  | nil => exact (or_iff_left fun ⟨_, ha, _⟩ => List.not_mem_nil ha).symm
  | cons a arrivals ih =>
    rw [List.exists_mem_cons_iff, ← or_assoc, ← mem_pressedCodes_take hcodes]
    have hkeymap : (pad.take a).2.keymap = pad.keymap := keymap_take
    have hrest := ih (hkeymap.symm ▸ hcodes)
    rwa [hkeymap] at hrest

/-- **What key events do, in any number and order.** A keypad of either layout that has taken in a row of events,
each at its own time, has its quit flag up if and only if it was up at the beginning or some event asked to stop;
it is never lowered. The codes reported so far are exactly those of the characters that the other events
entered and that have a code. A next event gives a code exactly if it presses it, and exactly if it is the code whose
time is set to that of the event, which leaves the others as they are; so if the code was not reported at
this very time before, it can be told from the times whether it was given. No event gives a code and raises
the flag. A character has a code if and only if the code has that character, the letters A to Z counting as
lower case, and every code below 16 has one. -/
theorem key_events_taken (layout : Layout) (quit : Bool) (arrivals : List Arrival) :
    let keymap := KeyMap.ofLayout layout
    let pad := ({ keymap, quit } : TerminalKeypad).takeAll arrivals
    (pad.quit = true ↔ quit = true ∨ ∃ a ∈ arrivals, a.event.AsksToStop) ∧
    (∀ n, n ∈ pad.pressedCodes ↔ ∃ a ∈ arrivals, ∃ code, a.event.Presses keymap code ∧ code.toNat = n) ∧
    (∀ a, let given := (pad.take a).1
      let pad' := (pad.take a).2
      (pad.quit = true → pad'.quit = true) ∧
      (∀ code, given = some code ↔ a.event.Presses keymap code) ∧
      (pad'.lastPressed = match given with
        | some code => pad.lastPressed.setIfInBounds code.toNat (some a.time)
        | none => pad.lastPressed) ∧
      (∀ code : Byte, pad.lastPressed[code.toNat]? ≠ some (some a.time) →
        (given = some code ↔ pad'.lastPressed[code.toNat]? = some (some a.time))) ∧
      (given.isSome = true → pad'.quit = pad.quit)) ∧
    (∀ ch code, keymap.codeFor ch = some code ↔ keymap.keyFor code = some ch.toLower) ∧
    ∀ code : Byte, code.toNat < 16 → ∃ key, keymap.keyFor code = some key := by
  intro keymap pad
  have hmap : pad.keymap = keymap := keymap_takeAll
  have hcodes : keymap.OfKeypad := KeyMap.ofKeypad_ofLayout layout
  have hnew : ∀ n, n ∉ ({ keymap, quit } : TerminalKeypad).pressedCodes := by
    rintro n hn
    obtain ⟨time, htime⟩ := mem_pressedCodes.1 hn
    rw [Vector.getElem?_replicate] at htime
    split at htime <;> cases htime
  refine ⟨quit_takeAll_iff, fun n => ?_, fun a => ⟨fun h => quit_take_iff.2 (.inl h), fun code => ?_,
    lastPressed_take, fun code hfresh => ?_, fun hgiven => ?_⟩, fun ch code => ?_,
    fun code => KeyMap.exists_keyFor layout⟩
  · exact (mem_pressedCodes_takeAll hcodes).trans (or_iff_right (hnew n))
  · exact hmap ▸ take_eq_some_iff
  · exact take_eq_some_iff_lastPressed (hmap ▸ hcodes) hfresh
  · obtain ⟨code, hcode⟩ := Option.isSome_iff_exists.1 hgiven
    have hgo := (take_eq_some_iff.1 hcode).1
    exact Bool.eq_iff_iff.2 (quit_take_iff.trans (or_iff_left hgo))
  · exact (KeyMap.oneToOne_ofList _).codeFor_eq_some_iff

/-- With control held the capital letter still is a key, unlike the small one. -/
example : (({ keymap := .ofLayout .qwerty } : TerminalKeypad).take ⟨{ key := .char 'C', ctrl := true }, 0⟩).1 =
    some 0x0b := by decide

end TerminalKeypad

end Chip8.Keyboard
