import Stencil.Proofs.CommandView
import Stencil.Proofs.EnvironmentPrecedence

/-!
# Parts of the configuration

What stands under a dotted name is shown below the name again, as a mapping that holds nothing else. But
empty segments of the name, which are looked up like others, are left out of what is shown. So the name
leads to the same value in what is shown exactly if it has no empty segment.

* `Value.HoldsOnly`, `Value.holdsOnly_nested`: a value that has something at one path only;
* `Value.ne_of_at?_cons`: no value is a part of itself;
* `Value.at?_nested_filter_iff`: when the whole path leads to what is shown below its segments that are
  not empty;
* `ShowArguments.shown_part_agrees_iff`: the same for the command.
-/

namespace Stencil

/-! ## Values at one path -/

namespace Value

variable {v w x : Value} {s : String} {path : List String}

/-- A value has another one at a path, and nothing else: at every step on the way there is a mapping
    whose only entry is the one that leads on. -/
structure HoldsOnly (w : Value) (path : List String) (v : Value) : Prop where
  here : w.at? path = some v
  alone (above : List String) (s : String) : above ++ [s] <+: path →
    ∃ x, w.at? above = some (.map [(.str s, x)])

theorem nested_cons (s : String) (path : List String) (v : Value) :
    nested (s :: path) v = .map [(.str s, nested path v)] := rfl

/-- A mapping with one entry leads on under its own key. -/
theorem at?_singleton (s : String) (v : Value) (path : List String) :
    (map [(.str s, v)]).at? (s :: path) = v.at? path := by
  rw [at?, Mapping.getStr?, Mapping.get?, if_pos (Key.same_self _), Option.bind_some]

/-- Under another key it has nothing. -/
theorem at?_singleton_of_ne {t : String} (h : s ≠ t) (v : Value) (path : List String) :
    (map [(.str s, v)]).at? (t :: path) = none := by
  rw [at?, Mapping.getStr?, Mapping.get?, if_neg (by simpa using h), Mapping.get?, Option.bind_none]

theorem holdsOnly_nested (path : List String) (v : Value) : (nested path v).HoldsOnly path v := by
  induction path with
  | nil =>
    refine ⟨by cases v <;> rfl, fun above s h => ?_⟩
    exact absurd (List.prefix_nil.1 h) (List.append_ne_nil_of_right_ne_nil _ (List.cons_ne_nil _ _))
  | cons t path ih =>
    refine ⟨(at?_singleton t _ path).trans ih.here, fun above s h => ?_⟩
    cases above with
    | nil =>
      obtain ⟨rfl, -⟩ := List.cons_prefix_cons.1 h
      exact ⟨_, rfl⟩
    | cons u above =>
      obtain ⟨rfl, hrest⟩ := List.cons_prefix_cons.1 h
      obtain ⟨x, hx⟩ := ih.alone above s hrest
      exact ⟨x, (at?_singleton u _ above).trans hx⟩

/-! ## Empty segments -/

theorem sizeOf_lt_of_getStr? {m : Mapping} (h : m.getStr? s = some w) : sizeOf w < sizeOf (map m) := by
  obtain ⟨⟨k, w⟩, he, rfl⟩ := Mapping.exists_mem_of_get? h
  have hlt := List.sizeOf_lt_of_mem he
  simp only [Prod.mk.sizeOf_spec, map.sizeOf_spec] at hlt ⊢
  omega

theorem sizeOf_le_of_at? (h : v.at? path = some x) : sizeOf x ≤ sizeOf v := by
  induction path generalizing v with
  | nil =>
    obtain rfl : v = x := by cases v <;> exact Option.some.inj h
    exact Nat.le_refl _
  | cons s path ih =>
    cases v with
    | map m =>
      obtain ⟨w, hw, hx⟩ := Option.bind_eq_some_iff.1 h
      exact Nat.le_trans (ih hx) (Nat.le_of_lt (sizeOf_lt_of_getStr? hw))
    | _ => cases h

/-- No value is a part of itself. -/
theorem ne_of_at?_cons : v.at? (s :: path) ≠ some v := by
  intro h
  cases v with
  | map m =>
    obtain ⟨w, hw, hx⟩ := Option.bind_eq_some_iff.1 h
    exact Nat.lt_irrefl _ (Nat.lt_of_le_of_lt (sizeOf_le_of_at? hx) (sizeOf_lt_of_getStr? hw))
  | _ => cases h

/-- What is shown below the segments of a path that are not empty is found at the whole path only if no
    segment is empty. -/
theorem at?_nested_filter_iff (path : List String) (v : Value) :
    (nested (path.filter (· ≠ "")) v).at? path = some v ↔ "" ∉ path := by
  induction path with
  | nil => exact iff_of_true (holdsOnly_nested [] v).here List.not_mem_nil
  | cons s path ih =>
    by_cases hs : s = ""
    · -- The empty segment leads to nothing where another one comes next, and elsewhere into the
      -- value itself.
      subst hs
      refine iff_of_false ?_ fun h => h List.mem_cons_self
      rw [List.filter_cons_of_neg (by simp)]
      cases hrest : path.filter (· ≠ "") with
      | nil => exact ne_of_at?_cons
      | cons t rest =>
        have ht : t ≠ "" := by
          have hmem : t ∈ path.filter (· ≠ "") := hrest ▸ List.mem_cons_self
          simpa using (List.mem_filter.1 hmem).2
        rw [nested_cons, at?_singleton_of_ne ht]
        exact nofun
    · rw [List.filter_cons_of_pos (by simpa using hs), nested_cons, at?_singleton, ih, List.mem_cons,
        not_or]
      exact ⟨fun h => ⟨Ne.symm hs, h⟩, And.right⟩

end Value

/-! ## The command -/

/-- What is looked up is looked up in the configuration that is loaded. -/
theorem Workspace.exists_of_get {w : Workspace} {root : Option FilePath} {key : String}
    {found : Option Value} (h : (get root key w).2.result = .ok found) :
    ∃ config, (load root true w).2.result = .ok config ∧
      (Value.map config).at? (Path.ofDotted key) = found := by
  cases hload : (load root true w).2.result with
  | error f =>
    have herror : (get root key w).2.result = .error f := (Work.bind_of_error hload).2
    rw [herror] at h
    cases h
  | ok config =>
    rw [get_result_of_load hload] at h
    exact ⟨config, rfl, Except.ok.inj h⟩

namespace CommandLine.ShowArguments

variable {a : ShowArguments} {w : Workspace} {key : String} {v : Value}

/-- In YAML, a value that is found under a dotted name is shown below the segments that are not empty. -/
theorem result_run_of_get
    (hget : (Workspace.get (some (.ofPlace (w.projectRoot a.root))) key w).2.result = .ok (some v))
    (hnull : v ≠ .null) (hkey : a.key = some key) (hne : key ≠ "") (hform : a.form = .yaml) :
    (a.run w).2.result = ((Yaml.display (Value.nested (Path.pieces key) v)).map fun t =>
      Ending.done (.line t)).mapError Fault.breach := by
  obtain ⟨config, hconfig, hfound⟩ := Workspace.exists_of_get hget
  have hshown : a.shown config = (a.part key v).map .done := by
    have hfilter : a.key.filter (· ≠ "") = some key := by simp [hkey, hne]
    rw [ShowArguments.shown, hfilter]
    dsimp only
    rw [hfound]
    split
    · next heq => cases heq
    · next heq => exact absurd (Option.some.inj heq) hnull
    · next heq => rw [Option.some.inj heq]
  rw [result_run hconfig, hshown, part, hform]
  dsimp only
  cases Yaml.display (Value.nested (Path.pieces key) v) <;> rfl

/-- A value that is found under a dotted name is shown below the segments of the name that are not
    empty, and nothing else is shown. The whole name leads to exactly this value in what is shown if no
    segment is empty, and only then. -/
theorem shown_part_agrees_iff
    (hget : (Workspace.get (some (.ofPlace (w.projectRoot a.root))) key w).2.result = .ok (some v))
    (hnull : v ≠ .null) :
    let path := Path.ofDotted key
    let shown := Value.nested (Path.pieces key) v
    (a.key = some key → key ≠ "" → a.form = .yaml → (a.run w).2.result =
      ((Yaml.display shown).map fun t => Ending.done (.line t)).mapError Fault.breach) ∧
      shown.HoldsOnly (Path.pieces key) v ∧
      (shown.at? path = some v ↔ "" ∉ path) ∧ (shown.HoldsOnly path v ↔ "" ∉ path) := by
  intro path shown
  have hiff : shown.at? path = some v ↔ "" ∉ path := Value.at?_nested_filter_iff path v
  have honly : shown.HoldsOnly (Path.pieces key) v := Value.holdsOnly_nested _ v
  refine ⟨result_run_of_get hget hnull, honly, hiff, fun h => hiff.1 h.here, fun h => ?_⟩
  have hpieces : Path.pieces key = path := by
    refine List.filter_eq_self.2 fun s hs => decide_eq_true ?_
    rintro rfl
    exact h hs
  exact hpieces ▸ honly

theorem shown_part_agrees_on_marker :
    let w : Workspace := { Workspace.vacant with env := [("TEXTPARSER_DELIMITERS__START", "<")] }
    let a : ShowArguments := { key := some "delimiters.start", format := .yaml }
    let path := Path.ofDotted "delimiters.start"
    let shown := Value.nested (Path.pieces "delimiters.start") (.str "<")
    (Workspace.get (some (.ofPlace (w.projectRoot a.root))) "delimiters.start" w).2.result =
        .ok (some (.str "<")) ∧ .str "<" ≠ Value.null ∧
      (a.run w).2.result = .ok (.done (.line "delimiters:\n  start: <")) ∧
      shown.HoldsOnly path (.str "<") := by
  intro w a path shown
  have hget : (Workspace.get (some (.ofPlace (w.projectRoot a.root))) "delimiters.start" w).2.result =
    .ok (some (.str "<")) := by decide +kernel
  have hnull : .str "<" ≠ Value.null := by decide
  obtain ⟨hrun, -, -, honly⟩ := shown_part_agrees_iff hget hnull
  have hdisplay : Yaml.display shown = .ok "delimiters:\n  start: <" := by decide +kernel
  refine ⟨hget, hnull, ?_, honly.2 (by decide)⟩
  rw [hrun rfl (by decide) rfl, hdisplay]
  rfl

/-- The value under an empty key is shown as if it stood one step above. -/
theorem shown_part_without_empty_segment :
    let w : Workspace :=
      { Workspace.vacant with env := [("TEXTPARSER_A__B", "\x7b\"\": 5\x7d")] }
    let a : ShowArguments := { key := some "a.b.", format := .yaml }
    let shown := Value.nested (Path.pieces "a.b.") (.int 5)
    (Workspace.get (some (.ofPlace (w.projectRoot a.root))) "a.b." w).2.result =
        .ok (some (.int 5)) ∧
      (a.run w).2.result = .ok (.done (.line "a:\n  b: 5")) ∧
      shown.at? (Path.ofDotted "a.b.") = none := by
  intro w a shown
  exact ⟨by decide +kernel, by decide +kernel, by decide⟩

end CommandLine.ShowArguments

end Stencil
