import Chip8.Proofs.Arguments
import Chip8.Proofs.Numerals

/-!
# Proofs/Configuration — from a command line to its configuration

The values of three options are numbers, and they are read one after the other, whatever their order on the
command line (`Arguments.config_eq`). So of the three the first that does not write a number below its limit is the
one reported (`first_misfit_reported`), and a choice that is written out is read back (`config_roundTrip`).
-/

namespace Chip8.CommandLine

open Keyboard (Layout)
open Numeral (Writes)

/-- The options that take a number, in the order in which they are read, each with what its number stays below:
2³² and twice 2⁶⁴. -/
def numbers : List (Setting × Nat) := [(.ips, UInt32.size), (.scale, UInt64.size), (.seed, UInt64.size)]

theorem Setting.mem_all (s : Setting) : s ∈ Setting.all := by
  cases s <;> decide

namespace Arguments

variable {a : Arguments} {s : Setting} {limit : Nat}

/-! ## Values that are numbers -/

/-- The number given as the value of an option. -/
def number (a : Arguments) (s : Setting) (limit : Nat) : Option Nat := (a.value s).bind (Numeral.read? limit)

/-- The report of a value that is no number below the limit. -/
def misfit (a : Arguments) (s : Setting) (limit : Nat) : Option BadValue :=
  (a.value s).bind fun text => if (Numeral.read? limit text).isNone then some ⟨s, text⟩ else none

theorem read_number {α : Type} (ofNat : Nat → α) :
    a.read s (fun text => (Numeral.read? limit text).map ofNat) = match a.misfit s limit with
      | some e => .error e
      | none => .ok ((a.number s limit).map ofNat) := by
  rw [read, misfit, number]
  cases a.value s with
  | none => rfl
  | some text =>
    rw [Option.bind_some, Option.bind_some]
    cases hread : Numeral.read? limit text <;> simp [hread]

theorem isNone_read?_iff {text : String} :
    (Numeral.read? limit text).isNone = true ↔ ¬∃ n < limit, Writes n text := by
  rw [Option.isNone_iff_eq_none, Option.eq_none_iff_forall_ne_some, not_exists]
  exact forall_congr' fun n => by rw [ne_eq, Numeral.read?_eq_some_iff, and_comm]

theorem misfit_eq_some_iff {e : BadValue} :
    a.misfit s limit = some e ↔ e.setting = s ∧ a.value s = some e.text ∧ ¬∃ n < limit, Writes n e.text := by
  rw [misfit, Option.bind_eq_some_iff]
  constructor
  · rintro ⟨text, htext, h⟩
    obtain ⟨hbad, h⟩ := Option.ite_none_right_eq_some.1 h
    obtain rfl := Option.some.inj h
    exact ⟨rfl, htext, isNone_read?_iff.1 hbad⟩
  · rintro ⟨rfl, htext, hbad⟩
    exact ⟨e.text, htext, if_pos (isNone_read?_iff.2 hbad)⟩

theorem misfit_eq_none_iff :
    a.misfit s limit = none ↔ ∀ text, a.value s = some text → ∃ n < limit, Writes n text := by
  rw [Option.eq_none_iff_forall_ne_some]
  constructor
  · intro h text htext
    by_contra hbad
    exact h ⟨s, text⟩ (misfit_eq_some_iff.2 ⟨rfl, htext, hbad⟩)
  · intro h e he
    obtain ⟨-, htext, hbad⟩ := misfit_eq_some_iff.1 he
    exact hbad (h _ htext)

/-- The number that is written is the one that is read, whatever stands in front of its digits. -/
theorem number_eq_some {text : String} {n : Nat} (hvalue : a.value s = some text) (hwrites : Writes n text)
    (hmisfit : a.misfit s limit = none) : a.number s limit = some n := by
  obtain ⟨m, hlt, hwrites'⟩ := misfit_eq_none_iff.1 hmisfit text hvalue
  obtain rfl := hwrites.unique hwrites'
  rw [number, hvalue]
  exact Numeral.read?_eq_some_iff.2 ⟨hwrites, hlt⟩

/-! ## The configuration -/

/-- The configuration that takes every value which can be read. -/
def reading (a : Arguments) : Config where
  dialect := {
    shiftSource := if a.given .shiftVy then .vy else .vx
    advancesIndex := a.given .indexIncrement }
  layout := ((a.value .layout).bind fun text => (Layout.ofName text).toOption).getD .qwerty
  instructionsPerSecond := ((a.number .ips UInt32.size).map .ofNat).getD 700
  timerHz := 60
  scale := ((a.number .scale UInt64.size).map .ofNat).getD 1
  seed := (a.number .seed UInt64.size).map .ofNat

theorem map_toLower_name (l : Layout) : l.name.map Char.toLower = l.name := by
  rw [← String.toList_inj, String.toList_map]
  cases l <;> rfl

theorem ofName_name (l : Layout) : Layout.ofName l.name = .ok l := by
  rw [Layout.ofName, map_toLower_name]
  cases l with
  | qwerty => exact if_pos rfl
  | azerty => exact (if_neg (by decide)).trans (if_pos rfl)

theorem read_layout (offered : a.Offered) :
    a.read .layout (fun text => (Layout.ofName text).toOption) =
      .ok ((a.value .layout).bind fun text => (Layout.ofName text).toOption) := by
  rw [read]
  cases hvalue : a.value .layout with
  | none => rfl
  | some text =>
    have htext : ∃ l : Layout, text = l.name := by
      have hoffered : text ∈ [Layout.qwerty.name, Layout.azerty.name] := offered text hvalue
      rw [List.mem_pair] at hoffered
      exact hoffered.elim (fun h => ⟨_, h⟩) (fun h => ⟨_, h⟩)
    obtain ⟨l, rfl⟩ := htext
    have htext : (Layout.ofName l.name).toOption = some l := congrArg Except.toOption (ofName_name l)
    simp only [htext, Option.bind_some]

/-- The values are read one after the other, and the first misfit ends the reading. -/
theorem config_eq (offered : a.Offered) :
    a.config = match numbers.findSome? fun x => a.misfit x.1 x.2 with
      | some e => .error e
      | none => .ok a.reading := by
  have hips : a.read .ips readUInt32 = _ := read_number UInt32.ofNat
  have hscale : a.read .scale readUInt64 = _ := read_number UInt64.ofNat
  have hseed : a.read .seed readUInt64 = _ := read_number UInt64.ofNat
  rw [config, read_layout offered, ok_bind, hips, hscale, hseed]
  simp only [numbers, List.findSome?_cons, List.findSome?_nil]
  cases a.misfit .ips UInt32.size with
  | some e => rfl
  | none =>
    cases a.misfit .scale UInt64.size with
    | some e => rfl
    | none =>
      cases a.misfit .seed UInt64.size with
      | some e => rfl
      | none => rfl

theorem exists_config_eq_ok_iff (offered : a.Offered) :
    (∃ c, a.config = .ok c) ↔ ∀ x ∈ numbers, a.misfit x.1 x.2 = none := by
  rw [config_eq offered, ← List.findSome?_eq_none_iff]
  cases numbers.findSome? fun x => a.misfit x.1 x.2 with
  | none => exact ⟨fun _ => rfl, fun _ => ⟨_, rfl⟩⟩
  | some e => exact ⟨fun ⟨c, hc⟩ => (nomatch hc), nofun⟩

theorem config_eq_error_iff (offered : a.Offered) {e : BadValue} :
    a.config = .error e ↔ (numbers.findSome? fun x => a.misfit x.1 x.2) = some e := by
  rw [config_eq offered]
  cases numbers.findSome? fun x => a.misfit x.1 x.2 with
  | none => exact ⟨nofun, nofun⟩
  | some e' => rw [Except.error.injEq, Option.some.injEq]

theorem setting_mem_givens {v : String} : .setting s v ∈ a.givens ↔ a.value s = some v := by
  simp [givens, Setting.mem_all]

theorem image_mem_givens {path : String} : .image path ∈ a.givens ↔ path = a.image := by
  simp [givens]

end Arguments

/-! ## Bad values -/

/-- Every value given to the option writes a number below the limit. -/
def ValuesFit (gs : List Given) (s : Setting) (limit : Nat) : Prop :=
  ∀ v, Given.setting s v ∈ gs → ∃ n < limit, Writes n v

/-- **Bad values are rejected exactly, and the first in a fixed order is reported**, whatever the order of the
options and the way they are written. -/
theorem first_misfit_reported {args : List String} {a : Arguments} (accepted : parse args = .ok (.run a)) :
    ∃ gs, (∀ gs', Line none gs' args ↔ gs' = gs) ∧
      ((∃ c, a.config = .ok c) ↔ ∀ s limit, (s, limit) ∈ numbers → ValuesFit gs s limit) ∧
      (∀ e, a.config = .error e ↔ ∃ before limit after, numbers = before ++ (e.setting, limit) :: after ∧
        (∀ s limit, (s, limit) ∈ before → ValuesFit gs s limit) ∧
        Given.setting e.setting e.text ∈ gs ∧ ¬∃ n < limit, Writes n e.text) ∧
      (∀ e, a.config = .error e → e.message = "bad value '" ++ e.text ++ "' for --" ++ e.setting.name) ∧
      ∀ gs' args', gs'.Perm gs → Line none gs' args' → parse args' = .ok (.run a) := by
  obtain ⟨⟨gs, hline, hperm⟩, offered⟩ := parse_eq_run_iff.1 accepted
  have hmem : ∀ s v, Given.setting s v ∈ gs ↔ a.value s = some v := fun s v =>
    hperm.mem_iff.trans Arguments.setting_mem_givens
  have hfit : ∀ s limit, ValuesFit gs s limit ↔ a.misfit s limit = none := fun s limit => by
    rw [Arguments.misfit_eq_none_iff]
    exact forall_congr' fun v => by rw [hmem]
  refine ⟨gs, fun gs' => ⟨fun hline' => hline'.unique hline, fun h => h ▸ hline⟩, ?_, fun e => ?_, fun _ _ => rfl,
    fun gs' args' hperm' hline' => ?_⟩
  · rw [Arguments.exists_config_eq_ok_iff offered, Prod.forall]
    exact forall₃_congr fun s limit _ => (hfit s limit).symm
  · rw [Arguments.config_eq_error_iff offered, List.findSome?_eq_some_iff]
    constructor
    · rintro ⟨before, ⟨s, limit⟩, after, hnumbers, hmisfit, hbefore⟩
      obtain ⟨rfl, htext, hbad⟩ := Arguments.misfit_eq_some_iff.1 hmisfit
      exact ⟨before, limit, after, hnumbers, fun s limit h => (hfit s limit).2 (hbefore (s, limit) h),
        (hmem _ _).2 htext, hbad⟩
    · rintro ⟨before, limit, after, hnumbers, hbefore, htext, hbad⟩
      exact ⟨before, (e.setting, limit), after, hnumbers,
        Arguments.misfit_eq_some_iff.2 ⟨rfl, (hmem _ _).1 htext, hbad⟩,
        fun x hx => (hfit x.1 x.2).1 (hbefore x.1 x.2 hx)⟩
  · exact parse_eq_run_iff.2 ⟨⟨gs', hline', hperm'.trans hperm⟩, offered⟩

theorem first_misfit_reported_scale :
    ∃ a, parse ["--seed", "z", "r", "--scale=y"] = .ok (.run a) ∧ a.config = .error ⟨.scale, "y"⟩ ∧
      ∃ gs before limit after, Line none gs ["--seed", "z", "r", "--scale=y"] ∧
        numbers = before ++ (.scale, limit) :: after ∧ (∀ s limit, (s, limit) ∈ before → ValuesFit gs s limit) ∧
        Given.setting .scale "y" ∈ gs ∧ ¬∃ n < limit, Writes n "y" := by
  have accepted : ∃ a, parse ["--seed", "z", "r", "--scale=y"] = .ok (.run a) ∧ a.config = .error ⟨.scale, "y"⟩ :=
    ⟨_, rfl, rfl⟩
  obtain ⟨a, haccepted, hconfig⟩ := accepted
  refine ⟨a, haccepted, hconfig, ?_⟩
  obtain ⟨gs, hline, -, herror, -⟩ := first_misfit_reported haccepted
  obtain ⟨before, limit, after, h⟩ := (herror ⟨.scale, "y"⟩).1 hconfig
  exact ⟨gs, before, limit, after, (hline gs).2 rfl, h⟩

/-! ## Good values -/

/-- What is chosen on a command line; whatever is not chosen is left out. -/
structure Choice where
  /-- The path of the program image. -/
  image : String
  /-- Instructions per second. -/
  ips : Option UInt32
  /-- Terminal cells for each pixel. -/
  scale : Option UInt64
  /-- The seed of the random bytes. -/
  seed : Option UInt64
  /-- The keyboard layout. -/
  layout : Option Layout
  /-- Whether shifts read the second operand. -/
  shiftVy : Bool
  /-- Whether transfers leave the index past the block. -/
  indexIncrement : Bool

namespace Choice

/-- The arguments that express the choice: numbers in decimal, the layout by its name. -/
def arguments (c : Choice) : Arguments where
  image := c.image
  value
    | .ips => c.ips.map fun n => toString n.toNat
    | .scale => c.scale.map fun n => toString n.toNat
    | .seed => c.seed.map fun n => toString n.toNat
    | .layout => c.layout.map Layout.name
  given
    | .shiftVy => c.shiftVy
    | .indexIncrement => c.indexIncrement

/-- The configuration that is chosen, with the defaults for what is left out. -/
def config (c : Choice) : Config where
  dialect := {
    shiftSource := if c.shiftVy then .vy else .vx
    advancesIndex := c.indexIncrement }
  layout := c.layout.getD .qwerty
  instructionsPerSecond := c.ips.getD 700
  timerHz := 60
  scale := c.scale.getD 1
  seed := c.seed

section

variable {c : Choice} {s : Setting} {limit : Nat} {α : Type} {o : Option α} {toNat : α → Nat} {ofNat : Nat → α}

theorem misfit_arguments (hvalue : c.arguments.value s = o.map fun x => toString (toNat x))
    (hlt : ∀ x, toNat x < limit) : c.arguments.misfit s limit = none := by
  rw [Arguments.misfit_eq_none_iff, hvalue]
  intro text htext
  obtain ⟨x, -, rfl⟩ := Option.map_eq_some_iff.1 htext
  exact ⟨toNat x, hlt x, Numeral.writes_toString (toNat x)⟩

theorem number_arguments (hvalue : c.arguments.value s = o.map fun x => toString (toNat x))
    (hlt : ∀ x, toNat x < limit) (hinv : ∀ x, ofNat (toNat x) = x) :
    (c.arguments.number s limit).map ofNat = o := by
  have hmisfit := misfit_arguments hvalue hlt
  cases o with
  | none =>
    rw [Arguments.number, hvalue]
    rfl
  | some x => rw [Arguments.number_eq_some hvalue (Numeral.writes_toString (toNat x)) hmisfit, Option.map_some, hinv]

end

theorem layout_arguments (c : Choice) :
    ((c.arguments.value .layout).bind fun text => (Layout.ofName text).toOption) = c.layout := by
  have hvalue : c.arguments.value .layout = c.layout.map Layout.name := rfl
  rw [hvalue]
  cases c.layout with
  | none => rfl
  | some l => exact congrArg Except.toOption (Arguments.ofName_name l)

theorem reading_arguments (c : Choice) : c.arguments.reading = c.config := by
  rw [Arguments.reading, layout_arguments,
    number_arguments (o := c.ips) rfl UInt32.toNat_lt_size fun _ => UInt32.ofNat_toNat,
    number_arguments (o := c.scale) rfl UInt64.toNat_lt_size fun _ => UInt64.ofNat_toNat,
    number_arguments (o := c.seed) rfl UInt64.toNat_lt_size fun _ => UInt64.ofNat_toNat]
  rfl

theorem arguments_offered (c : Choice) : c.arguments.Offered := by
  intro text h
  obtain ⟨l, -, rfl⟩ := Option.map_eq_some_iff.1 h
  cases l <;> decide

theorem config_arguments (c : Choice) : c.arguments.config = .ok c.config := by
  have hips : c.arguments.misfit .ips UInt32.size = none :=
    misfit_arguments (o := c.ips) rfl UInt32.toNat_lt_size
  have hscale : c.arguments.misfit .scale UInt64.size = none :=
    misfit_arguments (o := c.scale) rfl UInt64.toNat_lt_size
  have hseed : c.arguments.misfit .seed UInt64.size = none :=
    misfit_arguments (o := c.seed) rfl UInt64.toNat_lt_size
  have hnone : (numbers.findSome? fun x => c.arguments.misfit x.1 x.2) = none := by
    simp only [numbers, List.findSome?_cons, hips, hscale, hseed, List.findSome?_nil]
  rw [Arguments.config_eq c.arguments_offered, hnone, reading_arguments]

/-- Every value is a text that starts neither with a dash nor with an equals sign. -/
theorem arguments_head? (c : Choice) (s : Setting) (text : String) (h : c.arguments.value s = some text) :
    text.toList.head? ≠ some '-' ∧ text.toList.head? ≠ some '=' := by
  have hnumber (n : Nat) : (toString n).toList.head? ≠ some '-' ∧ (toString n).toList.head? ≠ some '=' := by
    have hdigit {d : Char} (h : (toString n).toList.head? = some d) : d.isDigit = true := by
      rw [Nat.toString_eq_repr, Nat.toList_repr] at h
      exact Nat.isDigit_of_mem_toDigits (by decide) (by decide) (List.mem_of_head? h)
    exact ⟨fun h => absurd (hdigit h) (by decide), fun h => absurd (hdigit h) (by decide)⟩
  cases s with
  | ips | scale | seed =>
    obtain ⟨n, -, rfl⟩ := Option.map_eq_some_iff.1 h
    exact hnumber n.toNat
  | layout =>
    obtain ⟨l, -, rfl⟩ := Option.map_eq_some_iff.1 h
    cases l <;> decide

end Choice

/-- The arguments that give one thing, written out in full: an option with its value in the next argument or behind
an equals sign. -/
inductive Written : Given → List String → Prop where
  /-- The path of the image. -/
  | image (path : String) : Written (.image path) [path]
  /-- An option and its value. -/
  | apart (s : Setting) (v : String) : Written (.setting s v) ["--" ++ s.name, v]
  /-- An option, an equals sign and its value. -/
  | joined (s : Setting) (v : String) : Written (.setting s v) ["--" ++ s.name ++ "=" ++ v]
  /-- A switch. -/
  | switch (s : Switch) : Written (.switch s) ["--" ++ s.name]

theorem plain_of_head? {arg : String} (h : arg.toList.head? ≠ some '-') : Plain arg :=
  fun _ _ harg => h (congrArg List.head? harg)

theorem long_name (name : String) : Long name none ("--" ++ name) :=
  ⟨0, [], by rw [String.toList_append, List.append_nil]; rfl, rfl⟩

theorem long_name_value (name : String) {v : String} (hv : v.toList.head? ≠ some '=') :
    Long name (some v) ("--" ++ name ++ "=" ++ v) :=
  ⟨0, '=' :: v.toList, by simp only [String.toList_append, List.append_assoc]; rfl, 0, rfl, hv⟩

theorem line_of_written {gs : List Given} {words : List (List String)} (h : List.Forall₂ Written gs words)
    (himage : ∀ path, Given.image path ∈ gs → path.toList.head? ≠ some '-')
    (hsetting : ∀ s v, Given.setting s v ∈ gs → v.toList.head? ≠ some '-' ∧ v.toList.head? ≠ some '=') :
    Line none gs words.flatten := by
  induction h with
  | nil => exact .nil
  | cons hg _ ih =>
    have hline := ih (fun path h => himage path (List.mem_cons_of_mem _ h))
      fun s v h => hsetting s v (List.mem_cons_of_mem _ h)
    cases hg with
    | image path => exact .image (plain_of_head? (himage path List.mem_cons_self)) hline
    | apart s v =>
      exact .bare (long_name s.name) (.value (plain_of_head? (hsetting s v List.mem_cons_self).1) hline)
    | joined s v => exact .joined (long_name_value s.name (hsetting s v List.mem_cons_self).2) hline
    | switch s => exact .switch (long_name s.name) hline

/-- **Command lines round trip.** A choice that is written out, its things in any order and each of them in any of
its forms, is read back: the path of the image as it stands, and the configuration chosen. -/
theorem config_roundTrip (c : Choice) {gs : List Given} {words : List (List String)}
    (himage : c.image.toList.head? ≠ some '-') (order : gs.Perm c.arguments.givens)
    (written : List.Forall₂ Written gs words) :
    ∃ a, parse words.flatten = .ok (.run a) ∧ a.image = c.image ∧ a.config = .ok c.config := by
  refine ⟨c.arguments, parse_eq_run_iff.2 ⟨⟨gs, line_of_written written ?_ ?_, order⟩, c.arguments_offered⟩, rfl,
    c.config_arguments⟩
  · intro path hpath
    rw [Arguments.image_mem_givens.1 (order.mem_iff.1 hpath)]
    exact himage
  · intro s v hv
    exact c.arguments_head? s v (Arguments.setting_mem_givens.1 (order.mem_iff.1 hv))

theorem config_roundTrip_azerty :
    ∃ a, parse ["--seed=9", "--shift-vy", "r.ch8", "--layout", "azerty", "--ips", "5"] = .ok (.run a) ∧
      a.image = "r.ch8" ∧
      a.config = .ok {
        dialect := { shiftSource := .vy }, layout := .azerty, instructionsPerSecond := 5, seed := some 9 } := by
  have order : [Given.setting .seed "9", .switch .shiftVy, .image "r.ch8", .setting .layout "azerty",
      .setting .ips "5"].Perm
        (Choice.mk "r.ch8" (some 5) none (some 9) (some .azerty) true false).arguments.givens := by decide
  exact config_roundTrip _ (by decide) order
    (.cons (.joined .seed "9") (.cons (.switch .shiftVy) (.cons (.image "r.ch8") (.cons (.apart .layout "azerty")
      (.cons (.apart .ips "5") .nil)))))

end Chip8.CommandLine
