import Chip8.Error
import Chip8.Proofs.Reading
import Mathlib.Data.List.Perm.Basic

/-!
# Proofs/Arguments — what a command line says

The checks of everything that was read look at one kind of thing after the other: the images, the values of each
option, each switch. Since a list of things is given up to order by its parts of each kind (`perm_iff`), what they
find is that a line gives, in some order, the things that the arguments list (`Arguments.givens`). With the reader
following the grammar this says which command lines are understood, and as what (`parse_eq_run_iff`).
-/

namespace Chip8.CommandLine

/-- The layout, if one is given, is one of those offered. -/
def Arguments.Offered (a : Arguments) : Prop := ∀ text, a.value .layout = some text → text ∈ layoutNames

/-! ## The things given, up to order -/

/-- The things that a line has to give, in some order, for it to say what these arguments say. -/
def Arguments.givens (a : Arguments) : List Given :=
  .image a.image ::
    ((Setting.all.flatMap fun s => (a.value s).toList.map (.setting s)) ++ (Switch.all.filter a.given).map .switch)

theorem count_filterMap_eq {α : Type} [BEq α] [LawfulBEq α] {f : Given → Option α} {x : α} {g : Given}
    (h : ∀ g', f g' = some x ↔ g' = g) (gs : List Given) : (gs.filterMap f).count x = gs.count g := by
  rw [List.count_filterMap]
  exact List.countP_congr fun g' _ => by rw [beq_iff_eq, beq_iff_eq, h]

/-- Only the order within each kind of thing matters. -/
theorem perm_iff {gs gs' : List Given} :
    gs.Perm gs' ↔ (images gs).Perm (images gs') ∧ (settings gs).Perm (settings gs') ∧
      (switches gs).Perm (switches gs') := by
  refine ⟨fun h => ⟨h.filterMap _, h.filterMap _, h.filterMap _⟩, fun ⟨himages, hsettings, hswitches⟩ => ?_⟩
  rw [List.perm_iff_count]
  intro g
  cases g with
  | image path =>
    have hcount : ∀ gs, (images gs).count path = gs.count (.image path) :=
      count_filterMap_eq fun g => by cases g <;> simp [eq_comm]
    rw [← hcount, ← hcount, himages.count_eq]
  | setting s v =>
    have hcount : ∀ gs, (settings gs).count (s, some v) = gs.count (.setting s v) :=
      count_filterMap_eq fun g => by cases g <;> simp [eq_comm]
    rw [← hcount, ← hcount, hsettings.count_eq]
  | switch s =>
    have hcount : ∀ gs, (switches gs).count s = gs.count (.switch s) :=
      count_filterMap_eq fun g => by cases g <;> simp [eq_comm]
    rw [← hcount, ← hcount, hswitches.count_eq]

theorem images_givens (a : Arguments) : images a.givens = [a.image] := by
  simp [images, Arguments.givens, Setting.all, List.filterMap_append, List.filterMap_map]

theorem settings_givens (a : Arguments) (s : Setting) :
    (settings a.givens).filter (·.1 = s) = (a.value s).toList.map fun text => (s, some text) := by
  have hsettings : settings a.givens =
      Setting.all.flatMap fun s => (a.value s).toList.map fun text => (s, some text) := by
    simp [settings, Arguments.givens, Setting.all, List.filterMap_append, List.filterMap_map]
  rw [hsettings]
  cases s <;> simp [Setting.all, List.filter_map, Function.comp_def]

theorem switches_givens (a : Arguments) (s : Switch) :
    (switches a.givens).filter (· = s) = if a.given s then [s] else [] := by
  have hswitches : switches a.givens = Switch.all.filter a.given := by
    simp [switches, Arguments.givens, Setting.all, List.filterMap_append, List.filterMap_map]
  rw [hswitches, List.filter_filter]
  cases s <;> simp [Switch.all, List.filter_cons]

/-! ## The checks -/

theorem settingValue_eq_ok_iff {l : List (Setting × Option String)} {s : Setting} {v : Option String} :
    settingValue l s = .ok v ↔ l.filter (·.1 = s) = v.toList.map fun text => (s, some text) := by
  have hmem : ∀ x ∈ l.filter (·.1 = s), x.1 = s := fun x hx => of_decide_eq_true (List.mem_filter.1 hx).2
  rw [settingValue]
  generalize l.filter (·.1 = s) = kept at hmem
  split
  case h_1 => cases v <;> simp
  case h_2 t text =>
    obtain rfl : t = s := hmem _ List.mem_cons_self
    cases v <;> simp [eq_comm]
  case h_3 => cases v <;> simp
  case h_4 hnil hone _ =>
    cases v with
    | none => simpa using hnil
    | some text => simpa using hone s text

theorem switchGiven_eq_ok_iff {l : List Switch} {s : Switch} {b : Bool} :
    switchGiven l s = .ok b ↔ l.filter (· = s) = if b then [s] else [] := by
  have hmem : ∀ x ∈ l.filter (· = s), x = s := fun x hx => of_decide_eq_true (List.mem_filter.1 hx).2
  rw [switchGiven]
  generalize l.filter (· = s) = kept at hmem
  split
  case h_1 => cases b <;> simp
  case h_2 t =>
    obtain rfl : t = s := hmem _ List.mem_cons_self
    cases b <;> simp
  case h_3 hnil hone =>
    cases b with
    | false => simpa using hnil
    | true => simpa using hone s

/-- The arguments put together again from what is known about each option and each switch. -/
theorem Arguments.eta (a : Arguments) :
    { image := a.image
      value := fun
        | .ips => a.value .ips
        | .scale => a.value .scale
        | .seed => a.value .seed
        | .layout => a.value .layout
      given := fun
        | .shiftVy => a.given .shiftVy
        | .indexIncrement => a.given .indexIncrement } = a := by
  obtain ⟨image, value, given⟩ := a
  congr
  · funext s
    cases s <;> rfl
  · funext s
    cases s <;> rfl

theorem arguments_eq_ok_iff {p : Progress} {a : Arguments} :
    p.arguments = .ok a ↔ p.image = some a.image ∧ (∀ s, settingValue p.settings s = .ok (a.value s)) ∧
      (∀ s, switchGiven p.switches s = .ok (a.given s)) ∧ a.Offered := by
  rw [Progress.arguments]
  constructor
  · intro h
    split at h
    case h_1 image himage =>
      obtain ⟨ips, hips, h⟩ := bind_eq_ok h
      obtain ⟨scale, hscale, h⟩ := bind_eq_ok h
      obtain ⟨seed, hseed, h⟩ := bind_eq_ok h
      obtain ⟨layout, hlayout, h⟩ := bind_eq_ok h
      obtain ⟨shiftVy, hshiftVy, h⟩ := bind_eq_ok h
      obtain ⟨indexIncrement, hindexIncrement, h⟩ := bind_eq_ok h
      dsimp only at h
      split at h
      case h_1 text =>
        split at h
        case isTrue hoffered =>
          cases h
          exact ⟨himage, fun s => by cases s <;> assumption, fun s => by cases s <;> assumption,
            fun text' htext => Option.some.inj htext ▸ List.contains_iff_mem.1 hoffered⟩
        case isFalse => cases h
      case h_2 hnone =>
        cases h
        exact ⟨himage, fun s => by cases s <;> assumption, fun s => by cases s <;> assumption,
          fun text htext => absurd htext (hnone text)⟩
    case h_2 => cases h
  · rintro ⟨himage, hvalue, hgiven, hlayout⟩
    simp only [himage, hvalue, hgiven, ok_bind]
    split
    case h_1 text htext =>
      rw [if_pos (List.contains_iff_mem.2 (hlayout text htext))]
      exact congrArg Except.ok a.eta
    case h_2 => exact congrArg Except.ok a.eta

/-- Lists are the same up to order if their parts of each key are. -/
theorem perm_of_filter {α β : Type} [DecidableEq α] [DecidableEq β] {l l' : List α} (key : α → β)
    (h : ∀ b, (l.filter (key · = b)).Perm (l'.filter (key · = b))) : l.Perm l' := by
  rw [List.perm_iff_count]
  intro a
  have hcount := (h (key a)).count_eq a
  have hkey : decide (key a = key a) = true := decide_eq_true rfl
  rwa [List.count_filter (p := fun x => decide (key x = key a)) hkey,
    List.count_filter (p := fun x => decide (key x = key a)) hkey] at hcount

theorem perm_toList_map {α β : Type} {f : α → β} {l : List β} {o : Option α} :
    l.Perm (o.toList.map f) ↔ l = o.toList.map f := by
  cases o with
  | none => exact List.perm_nil
  | some a => exact List.perm_singleton

theorem perm_ite_singleton {α : Type} {l : List α} {a : α} {b : Bool} :
    l.Perm (if b then [a] else []) ↔ l = if b then [a] else [] := by
  cases b with
  | false => exact List.perm_nil
  | true => exact List.perm_singleton

theorem settings_perm_iff {l : List (Setting × Option String)} {a : Arguments} :
    l.Perm (settings a.givens) ↔ ∀ s, settingValue l s = .ok (a.value s) := by
  constructor
  · intro h s
    have hfilter := h.filter (·.1 = s)
    rw [settings_givens, perm_toList_map] at hfilter
    exact settingValue_eq_ok_iff.2 hfilter
  · intro h
    refine perm_of_filter Prod.fst fun s => ?_
    rw [settingValue_eq_ok_iff.1 (h s), settings_givens]

theorem switches_perm_iff {l : List Switch} {a : Arguments} :
    l.Perm (switches a.givens) ↔ ∀ s, switchGiven l s = .ok (a.given s) := by
  constructor
  · intro h s
    have hfilter := h.filter (· = s)
    rw [switches_givens, perm_ite_singleton] at hfilter
    exact switchGiven_eq_ok_iff.2 hfilter
  · intro h
    exact perm_of_filter id fun s => .of_eq ((switchGiven_eq_ok_iff.1 (h s)).trans (switches_givens a s).symm)

/-! ## The lines that are understood -/

theorem readLong_ne_run {p : Progress} {arg : String} {a : Arguments} : readLong p arg ≠ .ok (.answer (.run a)) := by
  unfold readLong
  split
  split
  · split <;> exact nofun
  · exact nofun
  · split
    · exact nofun
    · split <;> exact nofun

/-- Only the end of the arguments asks for a run. -/
theorem readArgument_ne_run {p : Progress} {arg : String} {a : Arguments} :
    readArgument p arg ≠ .ok (.answer (.run a)) := by
  have hpositional : Reading.goOn <$> p.addPositional arg ≠ .ok (.answer (.run a)) := by
    cases p.addPositional arg <;> exact nofun
  have hshort : readShort arg ≠ .ok (.answer (.run a)) := by
    unfold readShort
    split <;> exact nofun
  intro h
  rw [readArgument] at h
  split at h
  case isTrue => exact hpositional h
  case isFalse =>
    split at h
    case h_1 => cases h
    case h_2 => exact readLong_ne_run h
    case h_3 => exact hshort h
    case h_4 =>
      split at h
      · cases h
      · exact hpositional h

theorem readArguments_ne_run {p : Progress} {args : List String} {a : Arguments} :
    readArguments p args ≠ .ok (.answer (.run a)) := by
  induction args generalizing p with
  | nil => exact nofun
  | cons arg args ih =>
    intro h
    obtain ⟨r, hr, h⟩ := bind_eq_ok h
    cases r with
    | goOn p' => exact ih h
    | answer r =>
      cases h
      exact readArgument_ne_run hr

/-- **The command lines that are understood**: those of the grammar that give, in some order, what the arguments
say, with a layout that is offered. -/
theorem parse_eq_run_iff {args : List String} {a : Arguments} :
    parse args = .ok (.run a) ↔ (∃ gs, Line none gs args ∧ gs.Perm a.givens) ∧ a.Offered := by
  rw [parse]
  constructor
  · intro h
    obtain ⟨r, hr, h⟩ := bind_eq_ok h
    cases r with
    | answer r =>
      cases h
      exact absurd hr readArguments_ne_run
    | goOn q =>
      obtain ⟨a', ha', h⟩ := bind_eq_ok h
      cases h
      obtain ⟨himage, hvalue, hgiven, hlayout⟩ := arguments_eq_ok_iff.1 ha'
      have hall : ∀ s, (s, none) ∉ q.settings := by
        intro s hs
        have hkept : (s, none) ∈ q.settings.filter (·.1 = s) := List.mem_filter.2 ⟨hs, decide_eq_true rfl⟩
        rw [settingValue_eq_ok_iff.1 (hvalue s)] at hkept
        obtain ⟨_, _, h⟩ := List.mem_map.1 hkept
        cases h
      obtain ⟨gs, hline, htakes⟩ := exists_line_of_readArguments hr Bool.false_ne_true hall
      have hsettings : q.settings = settings gs := htakes.settings
      have hswitches : q.switches = switches gs := htakes.switches
      refine ⟨⟨gs, hline, perm_iff.2 ⟨?_, ?_, ?_⟩⟩, hlayout⟩
      · rw [images_givens, List.perm_singleton, ← Option.toList_some, ← himage]
        exact htakes.image.symm
      · exact settings_perm_iff.2 fun s => hsettings ▸ hvalue s
      · exact switches_perm_iff.2 fun s => hswitches ▸ hgiven s
  · rintro ⟨⟨gs, hline, hperm⟩, hlayout⟩
    obtain ⟨himages, hvalue, hgiven⟩ := perm_iff.1 hperm
    rw [images_givens, List.perm_singleton] at himages
    obtain ⟨q, hrun, htakes⟩ := readArguments_of_line hline (p := {}) rfl Bool.false_ne_true (himages ▸ Nat.le_refl 1)
    have hq : q.arguments = .ok a := by
      refine arguments_eq_ok_iff.2 ⟨?_, ?_, ?_, hlayout⟩
      · rw [← Option.toList_eq_singleton_iff, htakes.image, himages]
        rfl
      · exact htakes.settings ▸ settings_perm_iff.1 hvalue
      · exact htakes.switches ▸ switches_perm_iff.1 hgiven
    rw [hrun, ok_bind]
    exact congrArg (· >>= fun a => pure (Request.run a)) hq

end Chip8.CommandLine
