import Chip8.CommandLine
import Mathlib.Data.List.TakeWhile

/-!
# Proofs/Spelling — the command lines that are understood

`Line owed given args` is the grammar of the arguments: with the value of the option `owed` still to come, they give
the things in `given`, in that order. Each of its rules is about one argument. A long option is its name with dashes
in front and, behind equals signs, a value; taking it apart gives the name and the value back
(`splitLong_of_long`, `long_of_splitLong`), so that no line has two meanings (`Line.unique`).
-/

namespace Chip8.CommandLine

/-! ## The grammar -/

/-- One thing that a command line gives. -/
inductive Given where
  /-- The path of a program image. -/
  | image (path : String)
  /-- The value of an option. -/
  | setting (s : Setting) (value : String)
  /-- A switch. -/
  | switch (s : Switch)
deriving DecidableEq, Repr

/-- The argument is no option: it does not start with a dash, or is only that. -/
def Plain (arg : String) : Prop := ∀ c cs, arg.toList ≠ '-' :: c :: cs

/-- What stands behind the name of an option that is given this value with it: equals signs and the value, or
nothing at all. -/
def Joins : Option String → List Char → Prop
  | none, cs => cs = []
  | some v, cs => ∃ m, cs = List.replicate (m + 1) '=' ++ v.toList ∧ v.toList.head? ≠ some '='

/-- The argument is the long option of this name, at least two dashes in front, with this value joined to it. -/
def Long (name : String) (value : Option String) (arg : String) : Prop :=
  ∃ k cs, arg.toList = List.replicate (k + 2) '-' ++ (name.toList ++ cs) ∧ Joins value cs

/-- **The grammar of command lines.** The arguments give these things, in this order, where the first of them is
the value of the option `owed`, if there is one. -/
inductive Line : Option Setting → List Given → List String → Prop where
  /-- Nothing is given by no arguments, and no value is owed. -/
  | nil : Line none [] []
  /-- A plain argument is the path of an image. -/
  | image {path gs args} : Plain path → Line none gs args → Line none (.image path :: gs) (path :: args)
  /-- An option by itself owes its value to the next argument. -/
  | bare {s option gs args} : Long s.name none option → Line (some s) gs args → Line none gs (option :: args)
  /-- A plain argument is the value that is owed. -/
  | value {s v gs args} : Plain v → Line none gs args → Line (some s) (.setting s v :: gs) (v :: args)
  /-- An option has its value joined to it. -/
  | joined {s v option gs args} : Long s.name (some v) option → Line none gs args →
      Line none (.setting s v :: gs) (option :: args)
  /-- A switch is its own argument; a value that is joined to it says nothing. -/
  | switch {s v option gs args} : Long s.name v option → Line none gs args →
      Line none (.switch s :: gs) (option :: args)
  /-- Behind a lone double dash every argument is the path of an image. -/
  | rest {paths} : Line none (paths.map .image) ("--" :: paths)

/-! ## Long options -/

section Long

variable {name arg : String} {value : Option String}

theorem dropWhile_run {c : Char} {cs : List Char} (k : Nat) (h : cs.head? ≠ some c) :
    (List.replicate k c ++ cs).dropWhile (· = c) = cs := by
  rw [List.dropWhile_append_of_pos fun a ha => decide_eq_true (List.eq_of_mem_replicate ha)]
  cases cs with
  | nil => rfl
  | cons a cs => exact List.dropWhile_cons_of_neg fun ha => h (congrArg some (of_decide_eq_true ha))

theorem exists_run (c : Char) (cs : List Char) :
    ∃ k, cs = List.replicate k c ++ cs.dropWhile (· = c) ∧ (cs.dropWhile (· = c)).head? ≠ some c := by
  have hrun : cs.takeWhile (· = c) = List.replicate (cs.takeWhile (· = c)).length c :=
    List.eq_replicate_of_mem fun a ha => of_decide_eq_true (List.mem_takeWhile_imp (p := (· = c)) ha)
  refine ⟨(cs.takeWhile (· = c)).length, ?_, fun hhead => ?_⟩
  · rw [← hrun, List.takeWhile_append_dropWhile]
  · have hnot := List.head?_dropWhile_not (· = c) cs
    rw [hhead] at hnot
    exact of_decide_eq_false hnot rfl

/-- The names that options have: they do not start with a dash and have no equals sign in them. -/
def IsName (name : String) : Prop :=
  (∃ c cs, name.toList = c :: cs ∧ c ≠ '-') ∧ '=' ∉ name.toList

theorem Setting.isName (s : Setting) : IsName s.name := by
  cases s <;> exact ⟨⟨_, _, rfl, by decide⟩, by decide⟩

theorem Switch.isName (s : Switch) : IsName s.name := by
  cases s <;> exact ⟨⟨_, _, rfl, by decide⟩, by decide⟩

theorem splitLong_of_long (hname : IsName name) (h : Long name value arg) :
    splitLong arg.toList = (name, value) := by
  obtain ⟨⟨c, cs', hcons, hc⟩, heq⟩ := hname
  obtain ⟨k, cs, harg, hjoins⟩ := h
  have hbody : arg.toList.dropWhile (· = '-') = name.toList ++ cs := by
    rw [harg, hcons]
    exact dropWhile_run _ fun h => hc (Option.some.inj h)
  have hall : ∀ c ∈ name.toList, decide (c ≠ '=') = true := fun c hc =>
    decide_eq_true (ne_of_mem_of_not_mem hc heq)
  have hname : (name.toList ++ cs).takeWhile (· ≠ '=') = name.toList ++ cs.takeWhile (· ≠ '=') :=
    List.takeWhile_append_of_pos hall
  have hrest : (name.toList ++ cs).dropWhile (· ≠ '=') = cs.dropWhile (· ≠ '=') :=
    List.dropWhile_append_of_pos hall
  rw [splitLong]
  simp only [hbody, hname, hrest]
  cases value with
  | none =>
    obtain rfl : cs = [] := hjoins
    simp
  | some v =>
    obtain ⟨m, rfl, hv⟩ := hjoins
    have hsign : List.replicate (m + 1) '=' ++ v.toList = '=' :: (List.replicate m '=' ++ v.toList) := rfl
    have hdrop : (List.replicate (m + 1) '=' ++ v.toList).dropWhile (· = '=') = v.toList := dropWhile_run _ hv
    rw [hsign] at hdrop ⊢
    simp [hdrop]

theorem long_of_splitLong {cs : List Char} (harg : arg.toList = '-' :: '-' :: cs)
    (h : splitLong arg.toList = (name, value)) : Long name value arg := by
  obtain ⟨k, hrun, hhead⟩ := exists_run '-' arg.toList
  rw [splitLong] at h
  generalize arg.toList.dropWhile (· = '-') = body at hrun hhead h
  obtain ⟨rfl, rfl⟩ := Prod.mk.inj h
  have hk : 2 ≤ k := by
    match k, hrun with
    | 0, hrun => exact absurd (congrArg List.head? (hrun.symm.trans harg)) hhead
    | 1, hrun => exact absurd (congrArg List.head? (List.cons.inj (hrun.symm.trans harg)).2) hhead
    | k + 2, _ => exact Nat.le_add_left 2 k
  refine ⟨k - 2, body.dropWhile (· ≠ '='), ?_, ?_⟩
  · rw [Nat.sub_add_cancel hk, String.toList_ofList, List.takeWhile_append_dropWhile, ← hrun]
  · have hnot := List.head?_dropWhile_not (· ≠ '=') body
    generalize body.dropWhile (· ≠ '=') = rest at hnot
    cases rest with
    | nil => rfl
    | cons a rest =>
      obtain rfl : a = '=' := by simpa using hnot
      obtain ⟨m, hm, hv⟩ := exists_run '=' rest
      have hdrop : ('=' :: rest).dropWhile (· = '=') = rest.dropWhile (· = '=') := List.dropWhile_cons_of_pos rfl
      refine ⟨m, ?_, ?_⟩
      · rw [hdrop, String.toList_ofList]
        exact congrArg ('=' :: ·) hm
      · rwa [hdrop, String.toList_ofList]

/-- Long options are found again by their names. -/
theorem Setting.find?_eq_some_iff {s : Setting} : Setting.all.find? (·.name = name) = some s ↔ s.name = name := by
  constructor
  · intro h
    exact of_decide_eq_true (List.find?_some (p := fun t : Setting => t.name = name) h)
  · rintro rfl
    cases s <;> rfl

theorem Switch.find?_eq_some_iff {s : Switch} : Switch.all.find? (·.name = name) = some s ↔ s.name = name := by
  constructor
  · intro h
    exact of_decide_eq_true (List.find?_some (p := fun t : Switch => t.name = name) h)
  · rintro rfl
    cases s <;> rfl

theorem Setting.find?_switch (s : Switch) : Setting.all.find? (·.name = s.name) = none := by
  cases s <;> rfl

end Long

/-! ## One reading of a line -/

section Unique

variable {name name' arg : String} {value value' : Option String}

theorem not_plain_dashes : ¬Plain "--" := fun h => h '-' [] rfl

theorem Long.not_plain (h : Long name value arg) : ¬Plain arg := by
  obtain ⟨k, cs, harg, -⟩ := h
  exact fun hplain => hplain '-' (List.replicate k '-' ++ (name.toList ++ cs)) harg

theorem Long.exists_toList (hname : IsName name) (h : Long name value arg) :
    ∃ c cs, arg.toList = '-' :: '-' :: c :: cs := by
  obtain ⟨k, cs, harg, -⟩ := h
  obtain ⟨⟨c, cs', hcons, -⟩, -⟩ := hname
  rw [harg, hcons]
  cases k with
  | zero => exact ⟨_, _, rfl⟩
  | succ k => exact ⟨_, _, rfl⟩

theorem not_long_dashes (hname : IsName name) : ¬Long name value "--" := fun h => by
  obtain ⟨c, cs, harg⟩ := h.exists_toList hname
  cases harg

theorem Long.unique (hname : IsName name) (hname' : IsName name') (h : Long name value arg)
    (h' : Long name' value' arg) : name = name' ∧ value = value' :=
  Prod.mk.inj ((splitLong_of_long hname h).symm.trans (splitLong_of_long hname' h'))

theorem Long.setting_unique {s s' : Setting} (h : Long s.name value arg) (h' : Long s'.name value' arg) :
    s = s' ∧ value = value' := by
  obtain ⟨hname, hvalue⟩ := h.unique s.isName s'.isName h'
  exact ⟨Option.some.inj ((Setting.find?_eq_some_iff.2 hname).symm.trans (Setting.find?_eq_some_iff.2 rfl)), hvalue⟩

theorem Long.switch_unique {s s' : Switch} (h : Long s.name value arg) (h' : Long s'.name value' arg) : s = s' := by
  have hname := (h.unique s.isName s'.isName h').1
  exact Option.some.inj ((Switch.find?_eq_some_iff.2 hname).symm.trans (Switch.find?_eq_some_iff.2 rfl))

theorem Long.not_switch {s : Setting} {s' : Switch} (h : Long s.name value arg) : ¬Long s'.name value' arg := by
  intro h'
  have hname := (h.unique s.isName s'.isName h').1
  cases (Setting.find?_eq_some_iff.2 hname).symm.trans (Setting.find?_switch s')

/-- **No line has two meanings**: which rule applies is settled by the form of the next argument. By induction on
one reading, with the other taken apart beside it. -/
theorem Line.unique {owed : Option Setting} {gs gs' : List Given} {args : List String} (line : Line owed gs args)
    (line' : Line owed gs' args) : gs = gs' := by
  induction line generalizing gs' with
  | nil =>
    cases line' with
    | nil => rfl
  | value hplain _ ih =>
    cases line' with
    | value _ line' => rw [ih line']
  | image hplain _ ih =>
    cases line' with
    | image _ line' => rw [ih line']
    | bare hlong | joined hlong | switch hlong => exact absurd hplain hlong.not_plain
    | rest => exact absurd hplain not_plain_dashes
  | @bare s _ _ _ hlong _ ih =>
    cases line' with
    | image hplain => exact absurd hplain hlong.not_plain
    | bare hlong' line' =>
      obtain ⟨rfl, -⟩ := hlong.setting_unique hlong'
      exact ih line'
    | joined hlong' => cases (hlong.setting_unique hlong').2
    | switch hlong' => exact absurd hlong' hlong.not_switch
    | rest => exact absurd hlong (not_long_dashes s.isName)
  | @joined s _ _ _ _ hlong _ ih =>
    cases line' with
    | image hplain => exact absurd hplain hlong.not_plain
    | bare hlong' => cases (hlong.setting_unique hlong').2
    | joined hlong' line' =>
      obtain ⟨rfl, ⟨⟩⟩ := hlong.setting_unique hlong'
      rw [ih line']
    | switch hlong' => exact absurd hlong' hlong.not_switch
    | rest => exact absurd hlong (not_long_dashes s.isName)
  | @switch s _ _ _ _ hlong _ ih =>
    cases line' with
    | image hplain => exact absurd hplain hlong.not_plain
    | bare hlong' | joined hlong' => exact absurd hlong hlong'.not_switch
    | switch hlong' line' =>
      obtain rfl := hlong.switch_unique hlong'
      rw [ih line']
    | rest => exact absurd hlong (not_long_dashes s.isName)
  | rest =>
    cases line' with
    | image hplain => exact absurd hplain not_plain_dashes
    | @bare s _ _ _ hlong | @joined s _ _ _ _ hlong | @switch s _ _ _ _ hlong =>
      exact absurd hlong (not_long_dashes s.isName)
    | rest => rfl

end Unique

end Chip8.CommandLine
