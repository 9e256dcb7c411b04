import Stencil.Proofs.CacheCoherence
import Stencil.Proofs.LayerPrecedence

/-!
# The last variable decides

The variables of an environment are laid over the merged layers one after the other, in the order of
their names. Each puts a value at a path, and makes or replaces what is on the way, so a later variable
may undo an earlier one wherever one path leads on from the other. A mapping is its entries here, and
a mapping that stands in two places is changed in one of them only.

* `Variable.Sets`: a variable puts a value at a path;
* `Config.addVariable_cases`: all that one variable can do;
* `Config.reach?_of_forall_not_bearsOn`, `Config.hasAt_of_last`: what all variables of a list do;
* `Workspace.last_variable_decides`: the last variable that bears on a path decides what is loaded
  and looked up there.
-/

namespace Stencil

/-! ## Variables and paths -/

namespace Variable

/-- A variable is meant to override something. -/
structure Overrides (v : String × String) : Prop where
  front : front.toList <+: v.1.toList
  isOverride : isOverride (rest v.1)

/-- A variable puts a value at a path. -/
structure Sets (v : String × String) (path : List String) (value : Value) : Prop extends
    Overrides v where
  path_eq : Variable.path (rest v.1) = .ok path
  read_eq : Coercion.read v.2 = .ok value

/-- If a variable is meant to override something, it puts a value at a path that is no mapping. -/
def WellFormed (v : String × String) : Prop :=
  Overrides v → ∃ path value, Sets v path value ∧ value.entries? = none

/-- A variable bears on a path: it puts a value there, or on the way, or further on. -/
def BearsOn (v : String × String) (p : List Key) : Prop :=
  ∃ path value, Sets v path value ∧ Path.Comparable (path.map .str) p

variable {v : String × String} {path path' : List String} {value value' : Value} {env : Environment}

theorem Sets.unique (h : Sets v path value) (h' : Sets v path' value') :
    path = path' ∧ value = value' := by
  have hp := h.path_eq.symm.trans h'.path_eq
  have hv := h.read_eq.symm.trans h'.read_eq
  exact ⟨Except.ok.inj hp, Except.ok.inj hv⟩

theorem Sets.path_ne_nil (h : Sets v path value) : path ≠ [] := by
  have hp := h.path_eq
  rw [Variable.path] at hp
  split at hp
  · cases hp
  · cases hp
    simpa using segments_ne_nil _

theorem mem_relevant : v ∈ relevant env ↔ v ∈ env ∧ front.toList <+: v.1.toList := by
  rw [relevant, mem_sort, List.mem_filter, List.isPrefixOf_iff_prefix]

theorem pairwise_relevant (h : (env.map Prod.fst).Nodup) :
    (relevant env).Pairwise fun u v => u.1 < v.1 :=
  Config.pairwise_lt_sort Prod.fst (h.sublist (List.filter_sublist.map _))

/-- What comes later in the order has a greater name. -/
theorem lt_of_relevant_eq {before after : Environment} (hnames : (env.map Prod.fst).Nodup)
    (h : relevant env = before ++ v :: after) : ∀ u ∈ after, v.1 < u.1 := by
  have hsorted := pairwise_relevant hnames
  rw [h, List.pairwise_append, List.pairwise_cons] at hsorted
  exact hsorted.2.1.1

theorem forall_mem_relevant {P : String × String → Prop} (h : ∀ v ∈ env, P v) :
    ∀ v ∈ relevant env, front.toList <+: v.1.toList ∧ P v := fun v hv =>
  ⟨(mem_relevant.1 hv).2, h v (mem_relevant.1 hv).1⟩

end Variable

/-! ## One variable -/

namespace Config

open Variable (Sets WellFormed BearsOn)

variable {config config' : Mapping} {v : String × String} {vs : Variable.Environment}
  {path : List String} {value : Value} {p : List Key}

theorem result_addVariable_of_sets {s : String} {path : List String} (h : Sets v (s :: path) value)
    (config : Mapping) : (addVariable config v).result = .ok (config.setAt s path value) := by
  rw [addVariable, h.isOverride, h.path_eq, h.read_eq]
  rfl

theorem result_addVariable_of_not_isOverride (h : ¬Variable.isOverride (Variable.rest v.1))
    (config : Mapping) : (addVariable config v).result = .ok config := by
  rw [addVariable, Bool.eq_false_iff.2 h]
  rfl

/-- A variable leaves the configuration as it is, or puts a value at a path. -/
theorem addVariable_cases (hfront : Variable.front.toList <+: v.1.toList) (h : WellFormed v)
    (config : Mapping) : (addVariable config v).result = .ok config ∨
      ∃ s path value, Sets v (s :: path) value ∧
        (addVariable config v).result = .ok (config.setAt s path value) := by
  by_cases ho : Variable.isOverride (Variable.rest v.1)
  · obtain ⟨path, value, hsets, -⟩ := h ⟨hfront, ho⟩
    obtain ⟨s, path, rfl⟩ := List.exists_cons_of_ne_nil hsets.path_ne_nil
    exact .inr ⟨s, path, value, hsets, result_addVariable_of_sets hsets config⟩
  · exact .inl (result_addVariable_of_not_isOverride ho config)

/-- The value of a variable stands where the variable puts it. -/
theorem hasAt_of_sets (h : Sets v path value) (hv : value.entries? = none)
    (hrun : (addVariable config v).result = .ok config') (p : List Key) :
    Mapping.HasAt config' (path.map .str) value p := by
  obtain ⟨s, path, rfl⟩ := List.exists_cons_of_ne_nil h.path_ne_nil
  rw [result_addVariable_of_sets h] at hrun
  cases hrun
  exact Mapping.hasAt_setAt hv config s path p

/-! ## Any number of variables -/

/-- Variables laid over a configuration one after the other. -/
def overrideAll (vs : Variable.Environment) (config : Mapping) : Except Fault Mapping :=
  vs.foldlM (fun config v => (addVariable config v).result) config

theorem result_override (env : Variable.Environment) (config : Mapping) :
    (override env config).result = overrideAll (Variable.relevant env) config :=
  Logged.result_foldlM _ _ _

section Run

variable (hvs : ∀ v ∈ vs, Variable.front.toList <+: v.1.toList ∧ WellFormed v)

include hvs

/-- Well-formed variables can be laid over any configuration. -/
theorem exists_overrideAll_eq_ok (config : Mapping) :
    ∃ config', overrideAll vs config = .ok config' := by
  induction vs generalizing config with
  | nil => exact ⟨config, rfl⟩
  | cons v vs ih =>
    rw [List.forall_mem_cons] at hvs
    rw [overrideAll, List.foldlM_cons]
    rcases addVariable_cases hvs.1.1 hvs.1.2 config with hv | ⟨s, path, value, -, hv⟩
    · rw [hv]
      exact ih hvs.2 _
    · rw [hv]
      exact ih hvs.2 _

/-- Variables that do not bear on a path change nothing there. -/
theorem reach?_of_forall_not_bearsOn (h : ∀ v ∈ vs, ¬BearsOn v p)
    (hrun : overrideAll vs config = .ok config') :
    (Value.map config').reach? p = (Value.map config).reach? p := by
  induction vs generalizing config with
  | nil =>
    cases hrun
    rfl
  | cons v vs ih =>
    rw [List.forall_mem_cons] at hvs h
    rw [overrideAll, List.foldlM_cons] at hrun
    obtain ⟨next, hnext, hrun⟩ := exists_of_bind_eq_ok hrun
    rw [ih hvs.2 h.2 hrun]
    rcases addVariable_cases hvs.1.1 hvs.1.2 config with hv | ⟨s, path, value, hsets, hv⟩
    · rw [hv] at hnext
      cases hnext
      rfl
    · rw [hv] at hnext
      cases hnext
      exact Mapping.reach?_setAt_of_not_comparable (fun hc => h.1 ⟨_, value, hsets, hc⟩) config value

/-- The last variable that bears on a path decides what stands there. -/
theorem hasAt_of_last {before after : Variable.Environment} (hvs' : vs = before ++ v :: after)
    (hsets : Sets v path value) (hlast : ∀ u ∈ after, ¬BearsOn u p)
    (hrun : overrideAll vs config = .ok config') :
    Mapping.HasAt config' (path.map .str) value p := by
  subst hvs'
  rw [List.forall_mem_append, List.forall_mem_cons] at hvs
  rw [overrideAll, List.foldlM_append] at hrun
  obtain ⟨middle, -, hrun⟩ := exists_of_bind_eq_ok hrun
  rw [List.foldlM_cons] at hrun
  obtain ⟨next, hnext, hrun⟩ := exists_of_bind_eq_ok hrun
  obtain ⟨path', value', hsets', hvalue⟩ := hvs.2.1.2 hsets.toOverrides
  obtain ⟨-, rfl⟩ := hsets'.unique hsets
  have hframe := reach?_of_forall_not_bearsOn hvs.2.2 hlast hrun
  exact (hasAt_of_sets hsets hvalue hnext p).congr hframe

end Run

end Config

/-! ## Precedence -/

/-- A variable is the last one of an environment that bears on a path. -/
structure Variable.Decides (env : Environment) (v : String × String) (p : List Key) : Prop where
  mem : v ∈ env
  bearsOn : BearsOn v p
  last : ∀ u ∈ env, v.1 < u.1 → ¬BearsOn u p

/-- If any variable bears on a path, there is a last one that does. -/
theorem Variable.exists_decides {env : Environment} {p : List Key} (h : ∃ v ∈ env, BearsOn v p) :
    ∃ v, Decides env v p := by
  induction env with
  | nil =>
    obtain ⟨v, hv, -⟩ := h
    exact absurd hv List.not_mem_nil
  | cons x env ih =>
    by_cases hlater : ∃ v, Decides env v p ∧ ¬(v.1 < x.1 ∧ BearsOn x p)
    · obtain ⟨v, hv, hx⟩ := hlater
      exact ⟨v, List.mem_cons_of_mem _ hv.mem, hv.bearsOn,
        List.forall_mem_cons.2 ⟨fun hlt hb => hx ⟨hlt, hb⟩, hv.last⟩⟩
    · -- What decides among the other variables has a smaller name than `x`, if there is anything.
      push Not at hlater
      have hx : BearsOn x p := by
        obtain ⟨v, hv, hb⟩ := h
        rcases List.mem_cons.1 hv with rfl | hv
        · exact hb
        · obtain ⟨u, hu⟩ := ih ⟨v, hv, hb⟩
          exact (hlater u hu).2
      refine ⟨x, List.mem_cons_self, hx, List.forall_mem_cons.2 ⟨fun hlt => ?_, fun u hu hlt hb => ?_⟩⟩
      · exact absurd hlt (String.lt_irrefl _)
      · obtain ⟨v, hv⟩ := ih ⟨u, hu, hb⟩
        exact hv.last u hu (String.lt_trans (hlater v hv).1 hlt) hb

namespace Config

open Variable (Sets WellFormed BearsOn Decides)

/-- Where no variable bears on a path, a configuration is what it was before. Elsewhere there is a last
    variable that does, and it decides: its value stands where it puts it, mappings are on the way
    there, and nothing is further on. -/
def LastVariableDecides (env : Variable.Environment) (before config : Mapping) : Prop :=
  ∀ p : List Key,
    ((∀ v ∈ env, ¬BearsOn v p) → (Value.map config).reach? p = (Value.map before).reach? p) ∧
    ((∃ v ∈ env, BearsOn v p) → ∃ v, Decides env v p) ∧
    ∀ v path value, Decides env v p → Sets v path value →
      Mapping.HasAt config (path.map .str) value p

/-- The variables of an environment are laid over any configuration so that the last one decides. -/
theorem exists_override_eq_ok {env : Variable.Environment} (hnames : (env.map Prod.fst).Nodup)
    (henv : ∀ v ∈ env, WellFormed v) (m : Mapping) :
    ∃ config, (override env m).result = .ok config ∧ LastVariableDecides env m config := by
  have hrelevant := Variable.forall_mem_relevant henv
  obtain ⟨config, hconfig⟩ := exists_overrideAll_eq_ok hrelevant m
  refine ⟨config, (result_override env m).trans hconfig, fun p =>
    ⟨fun hnone => ?_, Variable.exists_decides, ?_⟩⟩
  · exact reach?_of_forall_not_bearsOn hrelevant
      (fun v hv => hnone v (Variable.mem_relevant.1 hv).1) hconfig
  · intro v path value hv hsets
    obtain ⟨before, after, hsplit⟩ :=
      List.append_of_mem (Variable.mem_relevant.2 ⟨hv.mem, hsets.front⟩)
    refine hasAt_of_last hrelevant hsplit hsets (fun u hu => ?_) hconfig
    have hmem : u ∈ Variable.relevant env :=
      hsplit ▸ List.mem_append_right _ (List.mem_cons_of_mem _ hu)
    exact hv.last u (Variable.mem_relevant.1 hmem).1 (Variable.lt_of_relevant_eq hnames hsplit u hu)

end Config

namespace Workspace

open Variable (Sets WellFormed BearsOn Decides)

variable {w : Workspace} {root : Option FilePath} {name : String} {config : Mapping}

/-- A dotted name is looked up in what is loaded. -/
theorem get_result_of_load (h : (load root true w).2.result = .ok config) :
    (get root name w).2.result = .ok ((Value.map config).at? (Path.ofDotted name)) := by
  rw [get]
  dsimp only [bind]
  rw [h]
  rfl

/-- The last variable that bears on a path decides what stands there in the configuration that is
    loaded, and where none does the layers are left as they are. If the configuration is valid, what
    is looked up under the dotted name of the path of a variable is the value of the variable, unless
    a later variable bears on that path. -/
theorem last_variable_decides (w : Workspace) (root : Option String) (m : Mapping)
    (hw : w.Coherent) (hnames : (w.env.map Prod.fst).Nodup) (henv : ∀ v ∈ w.env, WellFormed v)
    (hm : (Config.merged w.files (w.placeOf root)).result = .ok m) :
    ∃ config, (load (root.map .ofString) false w).2.result = .ok config ∧
      Config.LastVariableDecides w.env m config ∧
      (Config.validate (.map config) = .ok () → ∀ v path value, Sets v path value →
        Decides w.env v (path.map .str) → (∀ s ∈ path, '.' ∉ s.toList) →
          (get (root.map .ofString) (".".intercalate path) w).2.result = .ok (some value)) := by
  obtain ⟨config, hoverride, hdecides⟩ := Config.exists_override_eq_ok hnames henv m
  have hcompute (validated : Bool) (hvalid : validated → Config.validate (.map config) = .ok ()) :
      (load (root.map .ofString) validated w).2.result = .ok config := by
    rw [hw, compute, Config.result_compute, ← placeOf, hm]
    dsimp only [bind, Except.bind]
    rw [hoverride]
    cases validated with
    | false => rfl
    | true =>
      dsimp only
      rw [if_pos rfl, hvalid rfl]
      rfl
  have hraw := hcompute false fun h => absurd h Bool.false_ne_true
  refine ⟨config, hraw, hdecides, fun hvalid v path value hsets hv hpoints => ?_⟩
  rw [get_result_of_load (hcompute true fun _ => hvalid), Value.at?_eq_reach?,
    Path.ofDotted_intercalate hsets.path_ne_nil hpoints]
  exact congrArg _ (((hdecides _).2.2 v path value hv hsets).here rfl)

/-- A cold cache is coherent. -/
theorem coherent_of_cache_eq_empty (h : w.cache = .empty) : w.Coherent := fun _ _ =>
  load_result_of_find?_eq_none (by rw [h]; rfl)

/-- Of two variables whose names differ in their cases only, the one in lower case is looked up. -/
theorem get_of_lower_case :
    let upper := ("TEXTPARSER_DELIMITERS__END", ">")
    let lower := ("TEXTPARSER_DELIMITERS__end", "]")
    let w : Workspace := { vacant with env := [upper, lower, ("PATH", "/bin")] }
    w.Coherent ∧ (w.env.map Prod.fst).Nodup ∧ (∀ v ∈ w.env, WellFormed v) ∧
      (get none "delimiters.end" w).2.result = .ok (some (.str "]")) := by
  intro upper lower w
  have hw : w.Coherent := coherent_of_cache_eq_empty rfl
  have hnames : (w.env.map Prod.fst).Nodup := by decide
  have hupper : Sets upper ["delimiters", "end"] (.str ">") :=
    ⟨⟨by decide, by decide⟩, by decide, by decide⟩
  have hlower : Sets lower ["delimiters", "end"] (.str "]") :=
    ⟨⟨by decide, by decide⟩, by decide, by decide⟩
  have hpath : ¬Variable.Overrides ("PATH", "/bin") := fun h => absurd h.front (by decide)
  have henv : ∀ v ∈ w.env, WellFormed v := by
    simp only [w, List.forall_mem_cons]
    exact ⟨fun _ => ⟨_, _, hupper, rfl⟩, fun _ => ⟨_, _, hlower, rfl⟩, fun h => absurd h hpath, nofun⟩
  have hdecides : Decides w.env lower (["delimiters", "end"].map .str) := by
    refine ⟨by simp [w], ⟨_, _, hlower, by decide⟩, fun u hu hlt => ?_⟩
    simp only [w, List.mem_cons, List.not_mem_nil, or_false] at hu
    rcases hu with rfl | rfl | rfl
    · exact absurd hlt (by decide)
    · exact absurd hlt (by decide)
    · exact absurd hlt (by decide)
  obtain ⟨config, hload, -, hget⟩ :=
    last_variable_decides w none (Mapping.merge [] Config.defaults) hw hnames henv rfl
  have hconfig : (load none false w).2.result =
      .ok (Config.defaults.setAt "delimiters" ["end"] (.str "]")) := by decide +kernel
  obtain rfl := Except.ok.inj (hconfig.symm.trans hload)
  have hfound := hget (by decide +kernel) lower _ _ hlower hdecides (by decide)
  have hname : ".".intercalate ["delimiters", "end"] = "delimiters.end" := by decide
  rw [hname] at hfound
  exact ⟨hw, hnames, henv, hfound⟩

end Workspace

end Stencil
