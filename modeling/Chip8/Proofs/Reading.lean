import Chip8.Proofs.Spelling

/-!
# Proofs/Reading — the reader follows the grammar

What one argument does to the reader depends on its form alone (`readArgument_eq_goOn_iff`). So a run of the reader
takes over what the grammar says that the line gives (`readArguments_of_line`), and whatever a run takes over without
leaving an option without its value comes from a line of the grammar (`exists_line_of_readArguments`).
-/

namespace Chip8.CommandLine

/-! ## One argument -/

/-- What reading one argument takes over, unless everything is positional. -/
inductive Reads (p : Progress) : String → Progress → Prop where
  /-- A plain argument, with no value owed, is the path of the image. -/
  | image {arg} : Plain arg → p.pending = none → p.image = none → Reads p arg { p with image := some arg }
  /-- A plain argument is the value that is owed. -/
  | value {arg s} : Plain arg → p.pending = some s →
      Reads p arg { p with settings := p.settings ++ [(s, some arg)], pending := none }
  /-- An option by itself owes its value. -/
  | bare {arg} {s : Setting} : Long s.name none arg → Reads p arg { p.dropPending with pending := some s }
  /-- An option has its value joined to it. -/
  | joined {arg v} {s : Setting} : Long s.name (some v) arg →
      Reads p arg { p.dropPending with settings := p.dropPending.settings ++ [(s, some v)] }
  /-- A switch. -/
  | switch {arg v} {s : Switch} : Long s.name v arg →
      Reads p arg { p.dropPending with switches := p.dropPending.switches ++ [s] }
  /-- A lone double dash. -/
  | rest : Reads p "--" { p with positionalOnly := true }

section Argument

variable {p p' : Progress} {arg : String}

theorem goOn_addPositional_eq_ok_iff :
    Reading.goOn <$> p.addPositional arg = .ok (.goOn p') ↔ p.image = none ∧ p' = { p with image := some arg } := by
  rw [Progress.addPositional]
  cases p.image with
  | none =>
    exact ⟨fun h => ⟨rfl, (Reading.goOn.inj (Except.ok.inj h)).symm⟩,
      fun h => congrArg (fun q => Except.ok (Reading.goOn q)) h.2.symm⟩
  | some path => exact ⟨nofun, fun h => absurd h.1 nofun⟩

theorem readShort_ne_goOn : readShort arg ≠ .ok (.goOn p) := by
  unfold readShort
  split <;> exact nofun

theorem readLong_setting {s : Setting} {value : Option String} (h : Long s.name value arg) :
    readLong p arg = .ok (.goOn (match value with
      | some v => { p with settings := p.settings ++ [(s, some v)] }
      | none => { p with pending := some s })) := by
  rw [readLong, splitLong_of_long s.isName h]
  simp only [Setting.find?_eq_some_iff.2 rfl]
  cases value <;> rfl

theorem readLong_switch {s : Switch} {value : Option String} (h : Long s.name value arg) :
    readLong p arg = .ok (.goOn { p with switches := p.switches ++ [s] }) := by
  rw [readLong, splitLong_of_long s.isName h]
  simp only [Setting.find?_switch, Switch.find?_eq_some_iff.2 rfl]

theorem exists_long_of_readLong {cs : List Char} (harg : arg.toList = '-' :: '-' :: cs)
    (h : readLong p arg = .ok (.goOn p')) :
    (∃ (s : Setting) (value : Option String), Long s.name value arg) ∨
      ∃ (s : Switch) (value : Option String), Long s.name value arg := by
  rw [readLong] at h
  obtain ⟨name, value, hsplit⟩ : ∃ name value, splitLong arg.toList = (name, value) := ⟨_, _, rfl⟩
  have hlong := long_of_splitLong harg hsplit
  simp only [hsplit] at h
  split at h
  case h_1 s hs => exact .inl ⟨s, value, Setting.find?_eq_some_iff.1 hs ▸ hlong⟩
  case h_2 s _ hs => exact .inr ⟨s, value, Switch.find?_eq_some_iff.1 hs ▸ hlong⟩
  case h_3 =>
    split at h
    · cases h
    · split at h <;> cases h

theorem readArgument_plain (hp : ¬p.positionalOnly = true) (h : Plain arg) :
    readArgument p arg = match p.pending with
      | some s => .ok (.goOn { p with settings := p.settings ++ [(s, some arg)], pending := none })
      | none => .goOn <$> p.addPositional arg := by
  rw [readArgument, if_neg hp]
  split
  case h_1 harg => exact absurd harg (h _ _)
  case h_2 harg => exact absurd harg (h _ _)
  case h_3 harg => exact absurd harg (h _ _)
  case h_4 => rfl

theorem readArgument_long (hp : ¬p.positionalOnly = true) {name : String} {value : Option String}
    (hname : IsName name) (h : Long name value arg) : readArgument p arg = readLong p.dropPending arg := by
  obtain ⟨c, cs, harg⟩ := h.exists_toList hname
  rw [readArgument, if_neg hp, harg]
  rfl

/-- Reading follows the form of the argument. -/
theorem readArgument_eq_goOn_iff (hp : ¬p.positionalOnly = true) :
    readArgument p arg = .ok (.goOn p') ↔ Reads p arg p' := by
  constructor
  · intro h
    rw [readArgument, if_neg hp] at h
    split at h
    case h_1 harg =>
      obtain rfl : arg = "--" := String.toList_inj.1 harg
      cases h
      exact .rest
    case h_2 cs hne harg =>
      obtain ⟨s, value, hlong⟩ | ⟨s, value, hlong⟩ := exists_long_of_readLong harg h
      · rw [readLong_setting hlong] at h
        cases value with
        | none => cases h; exact .bare hlong
        | some v => cases h; exact .joined hlong
      · rw [readLong_switch hlong] at h
        cases h
        exact .switch hlong
    case h_3 => exact absurd h readShort_ne_goOn
    case h_4 hdashes hlong hshort =>
      have hplain : Plain arg := fun c cs => hshort c cs
      split at h
      case h_1 s hs => cases h; exact .value hplain hs
      case h_2 hs =>
        obtain ⟨himage, rfl⟩ := goOn_addPositional_eq_ok_iff.1 h
        exact .image hplain hs himage
  · intro h
    cases h with
    | image hplain howed himage =>
      rw [readArgument_plain hp hplain]
      split
      case h_1 s hs => cases howed.symm.trans hs
      case h_2 => exact goOn_addPositional_eq_ok_iff.2 ⟨himage, rfl⟩
    | value hplain howed => rw [readArgument_plain hp hplain, howed]
    | @bare arg s hlong => rw [readArgument_long hp s.isName hlong, readLong_setting hlong]
    | @joined arg v s hlong => rw [readArgument_long hp s.isName hlong, readLong_setting hlong]
    | @switch arg v s hlong => rw [readArgument_long hp s.isName hlong, readLong_switch hlong]
    | rest => rw [readArgument, if_neg hp]; rfl

end Argument

/-! ## What a run takes over -/

/-- The image paths among the things given. -/
def images (gs : List Given) : List String :=
  gs.filterMap fun
    | .image path => some path
    | _ => none

/-- The options among the things given, with their values. -/
def settings (gs : List Given) : List (Setting × Option String) :=
  gs.filterMap fun
    | .setting s v => some (s, some v)
    | _ => none

/-- The switches among the things given. -/
def switches (gs : List Given) : List Switch :=
  gs.filterMap fun
    | .switch s => some s
    | _ => none

/-- Between `p` and `q` exactly these things were taken over. -/
structure Takes (p : Progress) (gs : List Given) (q : Progress) : Prop where
  image : q.image.toList = p.image.toList ++ images gs
  settings : q.settings = p.settings ++ settings gs
  switches : q.switches = p.switches ++ switches gs

namespace Takes

variable {p p' q : Progress} {gs gs' : List Given}

theorem nil (image : q.image = p.image) (settings : q.settings = p.settings) (switches : q.switches = p.switches) :
    Takes p [] q :=
  ⟨by rw [image]; exact (List.append_nil _).symm, by rw [settings]; exact (List.append_nil _).symm,
    by rw [switches]; exact (List.append_nil _).symm⟩

theorem trans (h : Takes p gs p') (h' : Takes p' gs' q) : Takes p (gs ++ gs') q where
  image := by rw [h'.image, h.image, List.append_assoc, images, images, images, List.filterMap_append]
  settings := by
    rw [h'.settings, h.settings, List.append_assoc, CommandLine.settings, CommandLine.settings,
      CommandLine.settings, List.filterMap_append]
  switches := by
    rw [h'.switches, h.switches, List.append_assoc, CommandLine.switches, CommandLine.switches,
      CommandLine.switches, List.filterMap_append]

theorem path (path : String) (h : p.image = none) : Takes p [.image path] { p with image := some path } :=
  ⟨by rw [h]; rfl, (List.append_nil _).symm, (List.append_nil _).symm⟩

theorem setting (s : Setting) (v : String) (pending : Option Setting) :
    Takes p [.setting s v] { p with settings := p.settings ++ [(s, some v)], pending := pending } :=
  ⟨(List.append_nil _).symm, rfl, (List.append_nil _).symm⟩

theorem switch (s : Switch) : Takes p [.switch s] { p with switches := p.switches ++ [s] } :=
  ⟨(List.append_nil _).symm, (List.append_nil _).symm, rfl⟩

end Takes

section Run

variable {p p' q : Progress} {arg : String} {args : List String} {gs : List Given}

theorem readArguments_cons_iff :
    readArguments p (arg :: args) = .ok (.goOn q) ↔
      ∃ p', readArgument p arg = .ok (.goOn p') ∧ readArguments p' args = .ok (.goOn q) := by
  rw [readArguments]
  cases readArgument p arg with
  | error e => exact ⟨nofun, fun ⟨_, h, _⟩ => nomatch h⟩
  | ok r =>
    cases r with
    | answer r => exact ⟨nofun, fun ⟨_, h, _⟩ => nomatch h⟩
    | goOn p' =>
      refine ⟨fun h => ⟨p', rfl, h⟩, ?_⟩
      rintro ⟨p'', hp'', h⟩
      cases hp''
      exact h

theorem dropPending_of_none (h : p.pending = none) : p.dropPending = p := by
  rw [Progress.dropPending, h]

theorem mem_dropPending {s : Setting} (h : p.pending = some s) : (s, none) ∈ p.dropPending.settings := by
  rw [Progress.dropPending, h]
  exact List.mem_append_right _ List.mem_cons_self

theorem subset_dropPending : p.settings ⊆ p.dropPending.settings := by
  rw [Progress.dropPending]
  split
  · exact List.subset_append_left _ _
  · exact List.Subset.refl _

theorem dropPending_image (image : Option String) :
    { p with image := image }.dropPending = { p.dropPending with image := image } := by
  obtain ⟨_, _, _, pending, _⟩ := p
  cases pending <;> rfl

/-- Behind a lone double dash there is room for one argument, if no image was named before. -/
theorem readArguments_positional_iff (hp : p.positionalOnly = true) :
    readArguments p args = .ok (.goOn q) ↔
      ∃ image : Option String, image.toList = p.image.toList ++ args ∧ q = { p.dropPending with image := image } := by
  induction args generalizing p with
  | nil =>
    have hsame : { p.dropPending with image := p.image } = p.dropPending := (dropPending_image p.image).symm
    constructor
    · intro h
      cases h
      exact ⟨p.image, (List.append_nil _).symm, hsame.symm⟩
    · rintro ⟨image, himage, rfl⟩
      obtain rfl : image = p.image := by
        rw [← Option.head?_toList (o := image), himage, List.append_nil, Option.head?_toList]
      rw [hsame]
      rfl
  | cons arg args ih =>
    have hstep : ∀ p', readArgument p arg = .ok (.goOn p') ↔ p.image = none ∧ p' = { p with image := some arg } := by
      intro p'
      rw [readArgument, if_pos hp, goOn_addPositional_eq_ok_iff]
    rw [readArguments_cons_iff]
    constructor
    · rintro ⟨p', hp', h⟩
      obtain ⟨hfree, rfl⟩ := (hstep p').1 hp'
      obtain ⟨image, himage, rfl⟩ := (ih (p := { p with image := some arg }) hp).1 h
      exact ⟨image, by rw [himage, hfree]; rfl, by rw [dropPending_image (some arg)]⟩
    · rintro ⟨image, himage, rfl⟩
      cases hfree : p.image with
      | some path =>
        rw [hfree] at himage
        cases image <;> cases himage
      | none =>
        refine ⟨_, (hstep _).2 ⟨hfree, rfl⟩, (ih (p := { p with image := some arg }) hp).2 ⟨image, ?_, ?_⟩⟩
        · rw [himage, hfree]
          rfl
        · rw [dropPending_image (some arg)]

theorem Reads.subset (h : Reads p arg p') : p.settings ⊆ p'.settings := by
  cases h with
  | image | rest => exact List.Subset.refl _
  | value => exact List.subset_append_left _ _
  | bare | switch => exact subset_dropPending
  | joined => exact List.Subset.trans subset_dropPending (List.subset_append_left _ _)

/-- Options that were met stay. -/
theorem subset_of_readArguments (h : readArguments p args = .ok (.goOn q)) : p.settings ⊆ q.settings := by
  induction args generalizing p with
  | nil =>
    cases h
    exact subset_dropPending
  | cons arg args ih =>
    obtain ⟨p', hp', hrun⟩ := readArguments_cons_iff.1 h
    by_cases hp : p.positionalOnly = true
    · obtain ⟨image, -, rfl⟩ := (readArguments_positional_iff hp).1 h
      exact subset_dropPending
    · exact List.Subset.trans ((readArgument_eq_goOn_iff hp).1 hp').subset (ih hrun)

theorem readArguments_cons_takes {gs' : List Given} (hp : ¬p.positionalOnly = true) (h : Reads p arg p')
    (htakes : Takes p gs p') (hrun : ∃ q, readArguments p' args = .ok (.goOn q) ∧ Takes p' gs' q) :
    ∃ q, readArguments p (arg :: args) = .ok (.goOn q) ∧ Takes p (gs ++ gs') q := by
  obtain ⟨q, hq, htakes'⟩ := hrun
  exact ⟨q, readArguments_cons_iff.2 ⟨p', (readArgument_eq_goOn_iff hp).2 h, hq⟩, htakes.trans htakes'⟩

theorem exists_toList_eq {l : List String} (h : l.length ≤ 1) : ∃ o : Option String, o.toList = l := by
  match l, h with
  | [], _ => exact ⟨none, rfl⟩
  | [path], _ => exact ⟨some path, rfl⟩

theorem images_map_image (paths : List String) : images (paths.map .image) = paths := by
  rw [images, List.filterMap_map]
  exact List.filterMap_some

theorem Takes.rest {paths : List String} {image : Option String} (howed : p.pending = none)
    (himage : image.toList = p.image.toList ++ paths) :
    Takes p (paths.map .image) { ({ p with positionalOnly := true } : Progress).dropPending with image := image } := by
  have hsettings : CommandLine.settings (paths.map .image) = [] := List.filterMap_eq_nil_iff.2 fun g hg => by
    obtain ⟨path, -, rfl⟩ := List.mem_map.1 hg
    rfl
  have hswitches : CommandLine.switches (paths.map .image) = [] := List.filterMap_eq_nil_iff.2 fun g hg => by
    obtain ⟨path, -, rfl⟩ := List.mem_map.1 hg
    rfl
  rw [dropPending_of_none (p := { p with positionalOnly := true }) howed]
  exact ⟨by rw [images_map_image]; exact himage, by rw [hsettings, List.append_nil],
    by rw [hswitches, List.append_nil]⟩

/-- **What a line gives is taken over**, if it names one image at most. By induction on the line. -/
theorem readArguments_of_line {owed : Option Setting} (line : Line owed gs args) (howed : p.pending = owed)
    (hp : ¬p.positionalOnly = true) (room : (p.image.toList ++ images gs).length ≤ 1) :
    ∃ q, readArguments p args = .ok (.goOn q) ∧ Takes p gs q := by
  induction line generalizing p with
  | nil => exact ⟨p, by rw [readArguments, dropPending_of_none howed], .nil rfl rfl rfl⟩
  | @image path gs args hplain _ ih =>
    have hfree : p.image = none := by
      cases himage : p.image with
      | none => rfl
      | some path' =>
        rw [himage] at room
        simp [images] at room
    rw [hfree] at room
    exact readArguments_cons_takes hp (.image hplain howed hfree) (.path path hfree)
      (ih (p := { p with image := some path }) howed hp room)
  | @bare s option gs args hlong _ ih =>
    have hread := Reads.bare (p := p) hlong
    rw [dropPending_of_none howed] at hread
    exact readArguments_cons_takes hp hread (.nil rfl rfl rfl) (ih (p := { p with pending := some s }) rfl hp room)
  | @value s v gs args hplain _ ih =>
    exact readArguments_cons_takes hp (.value hplain howed) (.setting s v none)
      (ih (p := { p with settings := p.settings ++ [(s, some v)], pending := none }) rfl hp room)
  | @joined s v option gs args hlong _ ih =>
    have hread := Reads.joined (p := p) hlong
    rw [dropPending_of_none howed] at hread
    exact readArguments_cons_takes hp hread (.setting s v p.pending)
      (ih (p := { p with settings := p.settings ++ [(s, some v)] }) howed hp room)
  | @switch s v option gs args hlong _ ih =>
    have hread := Reads.switch (p := p) hlong
    rw [dropPending_of_none howed] at hread
    exact readArguments_cons_takes hp hread (.switch s)
      (ih (p := { p with switches := p.switches ++ [s] }) howed hp room)
  | @rest paths =>
    rw [images_map_image] at room
    obtain ⟨image, himage⟩ := exists_toList_eq room
    have hrun := (readArguments_positional_iff (p := { p with positionalOnly := true }) rfl).2 ⟨image, himage, rfl⟩
    exact ⟨_, readArguments_cons_iff.2 ⟨_, (readArgument_eq_goOn_iff hp).2 .rest, hrun⟩, .rest howed himage⟩

/-- **Whatever is taken over was given by a line**, unless an option is left without its value. By induction on the
arguments; the value of an option is owed no longer than for one argument, since once it was dropped the option
would stay without it. -/
theorem exists_line_of_readArguments (h : readArguments p args = .ok (.goOn q)) (hp : ¬p.positionalOnly = true)
    (hall : ∀ s, (s, none) ∉ q.settings) : ∃ gs, Line p.pending gs args ∧ Takes p gs q := by
  have hsettled {p : Progress} (hsubset : p.dropPending.settings ⊆ q.settings) : p.pending = none := by
    cases hpending : p.pending with
    | none => rfl
    | some s => exact absurd (hsubset (mem_dropPending hpending)) (hall s)
  induction args generalizing p with
  | nil =>
    cases h
    have hnone := hsettled (List.Subset.refl _)
    rw [dropPending_of_none hnone, hnone]
    exact ⟨[], .nil, .nil rfl rfl rfl⟩
  | cons arg args ih =>
    obtain ⟨p', hp', hrun⟩ := readArguments_cons_iff.1 h
    have hsubset := subset_of_readArguments hrun
    cases (readArgument_eq_goOn_iff hp).1 hp' with
    | image hplain howed hfree =>
      obtain ⟨gs, hline, htakes⟩ := ih hrun hp
      rw [show ({ p with image := some arg } : Progress).pending = none from howed] at hline
      exact ⟨_, howed ▸ .image hplain hline, (Takes.path arg hfree).trans htakes⟩
    | value hplain howed =>
      obtain ⟨gs, hline, htakes⟩ := ih hrun hp
      exact ⟨_, howed ▸ .value hplain hline, (Takes.setting _ arg none).trans htakes⟩
    | @bare _ s hlong =>
      have hnone := hsettled hsubset
      rw [dropPending_of_none hnone] at hrun
      obtain ⟨gs, hline, htakes⟩ := ih hrun hp
      refine ⟨gs, ?_, (Takes.nil (p := p) (q := { p with pending := some s }) rfl rfl rfl).trans htakes⟩
      rw [hnone]
      exact .bare hlong hline
    | @joined _ v s hlong =>
      have hnone := hsettled (List.Subset.trans (List.subset_append_left _ _) hsubset)
      rw [dropPending_of_none hnone] at hrun
      obtain ⟨gs, hline, htakes⟩ := ih hrun hp
      rw [show ({ p with settings := p.settings ++ [(s, some v)] } : Progress).pending = none from hnone] at hline
      refine ⟨.setting s v :: gs, ?_, (Takes.setting s v p.pending).trans htakes⟩
      rw [hnone]
      exact .joined hlong hline
    | @switch _ v s hlong =>
      have hnone := hsettled hsubset
      rw [dropPending_of_none hnone] at hrun
      obtain ⟨gs, hline, htakes⟩ := ih hrun hp
      rw [show ({ p with switches := p.switches ++ [s] } : Progress).pending = none from hnone] at hline
      refine ⟨.switch s :: gs, ?_, (Takes.switch s).trans htakes⟩
      rw [hnone]
      exact .switch hlong hline
    | rest =>
      obtain ⟨image, himage, rfl⟩ := (readArguments_positional_iff (p := { p with positionalOnly := true }) rfl).1 hrun
      have hnone : p.pending = none := hsettled (p := { p with positionalOnly := true }) (List.Subset.refl _)
      refine ⟨args.map .image, ?_, .rest hnone himage⟩
      rw [hnone]
      exact .rest

end Run

end Chip8.CommandLine
