import Stencil.Proofs.MergeAlgebra
import Stencil.Proofs.VariableFailures

/-!
# Mappings in variables

A variable may hold an object, and then it puts a mapping at a path. What stood there is replaced as a
whole, whereas a layer that holds the same mapping at the same path is merged with it. The two come to
the same exactly if the variable has a say wherever the old mapping holds something.

* `Value.Alike`: values are the same but for the order of entries;
* `Mapping.merge_nested`: a layer that holds a value at one path only puts the merged value there;
* `Mapping.alike_merge_iff`: when a mapping that replaces another one is as good as both merged;
* `Config.result_override_of_only`: a variable that alone overrides something, among others;
* `Config.override_mapping_iff`: a variable that holds an object, against the layer that holds the same.
-/

namespace Stencil

/-! ## The same entries in any order -/

namespace Value

/-- Values are the same but for the order of entries: at every path the same stands in both, or there is
    a mapping in both. -/
def Alike (v w : Value) : Prop :=
  ∀ p, v.reach? p = w.reach? p ∨
    ∃ m n, v.reach? p = some (.map m) ∧ w.reach? p = some (.map n)

theorem Alike.refl (v : Value) : v.Alike v := fun _ => .inl rfl

end Value

namespace Mapping

variable {m upper : Mapping} {s : String} {path : List String} {v w : Value}

/-! ## A layer with one path -/

/-- A layer that holds a value at one path, and nothing else, puts the merged value there. -/
theorem merge_nested (m : Mapping) (s : String) (path : List String) (v : Value) :
    merge m [(.str s, Value.nested path v)] =
      m.setAt s path (mergeValue ((Value.map m).at? (s :: path)) v) := by
  induction path generalizing m s with
  | nil =>
    rw [merge, merge_nil, Config.at?_one]
    rfl
  | cons t path ih =>
    have hnew : Value.nested (t :: path) v = .map (setAt [] t path (mergeValue none v)) := by
      have hempty := ih [] t
      rw [merge, merge_nil, get?_nil, mergeValue_none] at hempty
      exact congrArg Value.map hempty
    rw [merge, merge_nil, setAt, putStr, Value.at?, ← getStr?]
    refine congrArg _ ?_
    cases hw : m.getStr? s with
    | none =>
      rw [below, hw, mergeValue_none]
      exact hnew
    | some w =>
      rcases w.eq_map_or_entries?_eq_none with ⟨sub, rfl⟩ | hentries
      · rw [below, hw]
        exact congrArg _ (ih sub t)
      · -- What is in the way is replaced, as if there was nothing.
        have hbelow : m.below s = [] := by
          rw [below, hw]
          cases w with
          | map sub => cases hentries
          | _ => rfl
        have hat : w.at? (t :: path) = none := by
          rw [Value.at?_eq_reach?, Value.reach?_of_entries?_eq_none hentries (by simp)]
        rw [Option.bind_some, hat, hbelow, ← hnew]
        exact mergeValue_map_of_entries?_eq_none hentries _

/-- Values that are put at a path make mappings alike exactly if they are alike. -/
theorem alike_setAt_iff (m : Mapping) (s : String) (path : List String) :
    (Value.map (m.setAt s path v)).Alike (.map (m.setAt s path w)) ↔ v.Alike w := by
  constructor
  · intro h q
    have hq := h ((s :: path).map .str ++ q)
    rwa [reach?_setAt_append, reach?_setAt_append] at hq
  · intro h p
    by_cases hp : Path.Comparable ((s :: path).map .str) p
    · rcases hp with ⟨q, rfl⟩ | hp
      · rw [reach?_setAt_append, reach?_setAt_append]
        exact h q
      · by_cases hne : p = (s :: path).map .str
        · have hnil := h []
          rw [← List.append_nil ((s :: path).map Key.str)] at hne
          rw [hne, reach?_setAt_append, reach?_setAt_append]
          exact hnil
        · obtain ⟨a, ha⟩ := reach?_setAt_of_prefix hp hne m v
          obtain ⟨b, hb⟩ := reach?_setAt_of_prefix hp hne m w
          exact .inr ⟨a, b, ha, hb⟩
    · rw [reach?_setAt_of_not_comparable hp, reach?_setAt_of_not_comparable hp]
      exact .inl rfl

/-! ## Replacing and merging -/

/-- Wherever a mapping holds something, another one has a say. -/
def CoveredBy (m upper : Mapping) : Prop :=
  ∀ p, ((Value.map m).reach? p).isSome → (Value.map upper).Touches p

/-- A mapping that replaces another one is as good as both merged, if it has a say wherever the other
    one holds something, and only then. -/
theorem alike_merge_iff (h : upper.Distinct) :
    (Value.map upper).Alike (.map (merge m upper)) ↔ m.CoveredBy upper := by
  rw [map_merge]
  have hnone {p : List Key} (htouches : ¬(Value.map upper).Touches p) :
      (Value.map upper).reach? p = none := by
    rw [← Option.not_isSome_iff_eq_none]
    exact fun hp => htouches (.inl hp)
  have hkept {p : List Key} (htouches : ¬(Value.map upper).Touches p) :
      (mergeValue (some (.map m)) (.map upper)).reach? p = (Value.map m).reach? p :=
    reach?_mergeValue_of_not_touches h htouches (some (.map m))
  constructor
  · intro halike p hp
    by_contra htouches
    rcases halike p with heq | ⟨a, b, ha, -⟩
    · rw [hnone htouches, hkept htouches] at heq
      rw [← heq] at hp
      cases hp
    · rw [hnone htouches] at ha
      cases ha
  · intro hcovered p
    by_cases htouches : (Value.map upper).Touches p
    · rw [reach?_mergeValue_of_touches h htouches]
      cases hu : (Value.map upper).reach? p with
      | none => exact .inl rfl
      | some u =>
        rw [Option.map_some]
        rcases u.eq_map_or_entries?_eq_none with ⟨sub, rfl⟩ | hentries
        · obtain ⟨both, hboth⟩ := exists_mergeValue_map ((Value.map m).reach? p) sub
          exact .inr ⟨sub, both, rfl, congrArg some hboth⟩
        · exact .inl (by rw [mergeValue_of_entries?_eq_none hentries])
    · rw [hnone htouches, hkept htouches]
      cases hm : (Value.map m).reach? p with
      | none => exact .inl rfl
      | some w => exact absurd (hcovered p (by rw [hm]; rfl)) htouches

end Mapping

namespace Config

open Variable (Overrides Sets)

variable {config : Mapping} {env vs : Variable.Environment} {v : String × String} {s : String}
  {path : List String} {value : Value} {upper : Mapping}

/-! ## One variable among others -/

theorem overrideAll_of_forall_not (h : ∀ v ∈ vs, ¬Variable.isOverride (Variable.rest v.1))
    (config : Mapping) : overrideAll vs config = .ok config := by
  induction vs with
  | nil => rfl
  | cons v vs ih =>
    rw [List.forall_mem_cons] at h
    rw [overrideAll, List.foldlM_cons, result_addVariable_of_not_isOverride h.1]
    exact ih h.2

/-- If one variable alone overrides something, the others do not matter. -/
theorem result_override_of_only (hnames : (env.map Prod.fst).Nodup) (hv : v ∈ env)
    (hsets : Sets v (s :: path) value) (honly : ∀ u ∈ env, Overrides u → u = v) (config : Mapping) :
    (override env config).result = .ok (config.setAt s path value) := by
  obtain ⟨before, after, hsplit⟩ := List.append_of_mem (Variable.mem_relevant.2 ⟨hv, hsets.front⟩)
  have hnodup : (before ++ v :: after).Nodup :=
    hsplit ▸ (Variable.pairwise_relevant hnames).imp fun {a b} hlt (heq : a = b) =>
      String.lt_irrefl _ (heq ▸ hlt)
  have hother {u : String × String} (hu : u ∈ before ++ v :: after) (hne : u ≠ v) :
      ¬Variable.isOverride (Variable.rest u.1) := fun ho => by
    rw [← hsplit, Variable.mem_relevant] at hu
    exact hne (honly u hu.1 ⟨hu.2, ho⟩)
  rw [List.nodup_append, List.nodup_cons] at hnodup
  obtain ⟨-, ⟨hafter, -⟩, hbefore⟩ := hnodup
  rw [result_override, hsplit, overrideAll, List.foldlM_append, ← overrideAll,
    overrideAll_of_forall_not fun u hu => hother (List.mem_append_left _ hu)
      (hbefore u hu v List.mem_cons_self)]
  dsimp only [bind, Except.bind]
  rw [List.foldlM_cons, result_addVariable_of_sets hsets]
  refine overrideAll_of_forall_not (fun u hu => ?_) _
  exact hother (List.mem_append_right _ (List.mem_cons_of_mem _ hu)) fun heq => hafter (heq ▸ hu)

/-! ## Mappings against layers -/

/-- A variable that alone overrides something, and holds an object, can be laid over any configuration.
    Then its mapping stands at its path, and nothing of a mapping that stood there before is left. That
    is as good as merging if everything that the old mapping held is at paths where the new one has a
    say, and only then, and likewise for the whole configuration and the layer that holds the object at
    the path and nothing else. -/
theorem override_mapping_iff (hnames : (env.map Prod.fst).Nodup) (hv : v ∈ env)
    (hsets : Sets v (s :: path) (.map upper)) (honly : ∀ u ∈ env, Overrides u → u = v)
    (config : Mapping) :
    ∃ config', (override env config).result = .ok config' ∧
      (Value.map config').at? (s :: path) = some (.map upper) ∧
      (∀ m : Mapping, (Value.map config).at? (s :: path) = some (.map m) →
        ((Value.map upper).Alike (.map (m.merge upper)) ↔ m.CoveredBy upper)) ∧
      ((Value.map config').Alike
          (.map (config.merge [(.str s, Value.nested path (.map upper))])) ↔
        ∀ m : Mapping, (Value.map config).at? (s :: path) = some (.map m) → m.CoveredBy upper) := by
  have hupper : upper.Distinct := Coercion.distinct_of_read hsets.read_eq
  refine ⟨_, result_override_of_only hnames hv hsets honly config,
    Mapping.at?_setAt_self config s path _, fun m _ => Mapping.alike_merge_iff hupper, ?_⟩
  rw [Mapping.merge_nested, Mapping.alike_setAt_iff]
  cases hat : (Value.map config).at? (s :: path) with
  | none => exact iff_of_true (by rw [Mapping.mergeValue_none]; exact .refl _) nofun
  | some w =>
    rcases w.eq_map_or_entries?_eq_none with ⟨m, rfl⟩ | hentries
    · rw [← Mapping.map_merge, Mapping.alike_merge_iff hupper]
      exact ⟨fun hm n hn => by cases hn; exact hm, fun h => h m rfl⟩
    · rw [Mapping.mergeValue_map_of_entries?_eq_none hentries]
      refine iff_of_true (.refl _) fun m hm => ?_
      cases hm
      cases hentries

/-- An object that names all that stood at its path is as good as merged. -/
theorem override_of_covered :
    let config : Mapping := [(.str "x", .map [(.str "y", .map [(.str "a", .int 1)])])]
    let v := ("TEXTPARSER_X__Y", "\x7b\"c\": 4, \"a\": 3\x7d")
    let env := [("PATH", "/bin"), ("TEXTPARSER_HOME", "[]"), v]
    let upper : Mapping := [(.str "c", .int 4), (.str "a", .int 3)]
    let layer : Mapping := [(.str "x", .map [(.str "y", .map upper)])]
    (env.map Prod.fst).Nodup ∧ Sets v ["x", "y"] (.map upper) ∧
      (∀ u ∈ env, Overrides u → u = v) ∧
      ∃ config', (override env config).result = .ok config' ∧
        (Value.map config').at? ["x", "y"] = some (.map upper) ∧
        (Value.map config').Alike (.map (config.merge layer)) := by
  intro config v env upper layer
  have hnames : (env.map Prod.fst).Nodup := by decide
  have hsets : Sets v ["x", "y"] (.map upper) :=
    ⟨⟨by decide, by decide⟩, by decide, by decide +kernel⟩
  have honly : ∀ u ∈ env, Overrides u → u = v := by
    refine List.forall_mem_cons.2 ⟨fun h => absurd h.front (by decide), ?_⟩
    refine List.forall_mem_cons.2 ⟨fun h => absurd h.isOverride (by decide), ?_⟩
    exact List.forall_mem_singleton.2 fun _ => rfl
  have hcovered : Mapping.CoveredBy [(.str "a", .int 1)] upper := by
    intro p hp
    obtain ⟨w, hw⟩ := Option.isSome_iff_exists.1 hp
    rcases p with _ | ⟨k, _ | ⟨l, p⟩⟩
    · exact Value.touches_nil _
    · cases Mapping.eq_str_of_reach? hw
      exact .inl rfl
    · cases Mapping.eq_str_of_reach? hw
      cases hw
  obtain ⟨config', hrun, hat, -, hlayer⟩ :=
    override_mapping_iff hnames (by simp [env]) hsets honly config
  refine ⟨hnames, hsets, honly, config', hrun, hat, hlayer.2 fun m hm => ?_⟩
  cases hm
  exact hcovered

/-- An object that names less loses what it does not name. -/
theorem override_loses_entry :
    let config : Mapping :=
      [(.str "x", .map [(.str "y", .map [(.str "a", .int 1), (.str "b", .int 2)])])]
    let v := ("TEXTPARSER_X__Y", "\x7b\"a\": 3\x7d")
    let layer : Mapping := [(.str "x", .map [(.str "y", .map [(.str "a", .int 3)])])]
    Sets v ["x", "y"] (.map [(.str "a", .int 3)]) ∧ (override [v] config).result = .ok layer ∧
      config.merge layer =
        [(.str "x", .map [(.str "y", .map [(.str "a", .int 3), (.str "b", .int 2)])])] ∧
      ¬(Value.map layer).Alike (.map (config.merge layer)) := by
  intro config v layer
  refine ⟨⟨⟨by decide, by decide⟩, by decide, by decide +kernel⟩, by decide +kernel, by decide,
    fun h => ?_⟩
  rcases h [.str "x", .str "y", .str "b"] with h | ⟨m, n, h, -⟩
  · revert h
    decide
  · have hnone : (Value.map layer).reach? [.str "x", .str "y", .str "b"] = none := by decide
    rw [hnone] at h
    cases h

end Config

end Stencil
