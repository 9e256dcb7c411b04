import Mathlib.Data.List.Infix
import Stencil.Proofs.DistinctKeys
import Stencil.Proofs.KeyPaths
import Stencil.Proofs.Observation

/-!
# The last layer decides

Layers are merged mapping by mapping, so that what stands at a path in the end may come from any of
them. A layer has a say at a path if something stands there, or if something that is no mapping is in
the way. The last layer with a say decides alone, as far as it is not a mapping that stands there.

* `Value.Touches`, `Value.Blocks`: whether a layer has a say at a path;
* `Mapping.get?_merge`, `Mapping.reach?_merge_of_touches`, `Mapping.reach?_merge_of_not_touches`: one
  layer laid over others, at a key and at a path;
* `Config.merged_result_eq_ok_iff`: the layers of a project, read and merged;
* `Config.last_layer_decides`: the last layer with a say decides, in any sequence of layers and in
  every project.
-/

namespace Stencil

/-! ## Having a say -/

namespace Value

/-- Something that is no mapping is in the way. -/
def Blocks (v : Value) (path : List Key) : Prop :=
  ∃ front w, front <+: path ∧ front ≠ path ∧ v.reach? front = some w ∧ w.entries? = none

/-- A value has a say at a path. -/
def Touches (v : Value) (path : List Key) : Prop := (v.reach? path).isSome ∨ v.Blocks path

instance (v : Value) (path : List Key) : Decidable (v.Blocks path) :=
  decidable_of_iff (∃ front ∈ path.inits, front ≠ path ∧
    ∃ w ∈ v.reach? front, w.entries? = none) (by simp [Blocks])

instance (v : Value) (path : List Key) : Decidable (v.Touches path) :=
  inferInstanceAs (Decidable (_ ∨ _))

variable {v : Value} {m : Mapping} {k : Key} {p : List Key}

theorem Blocks.reach?_eq_none (h : v.Blocks p) : v.reach? p = none := by
  obtain ⟨front, w, ⟨q, rfl⟩, hne, hw, hentries⟩ := h
  have hq : q ≠ [] := fun hq => hne (by rw [hq, List.append_nil])
  rw [reach?_append, hw, Option.bind_some, reach?_of_entries?_eq_none hentries hq]

theorem Touches.reach?_eq_none_iff (h : v.Touches p) : v.reach? p = none ↔ v.Blocks p :=
  ⟨fun hnone => h.resolve_left (by simp [hnone]), Blocks.reach?_eq_none⟩

theorem touches_nil (v : Value) : v.Touches [] := .inl rfl

theorem touches_of_entries?_eq_none (h : v.entries? = none) (p : List Key) : v.Touches p := by
  by_cases hp : p = []
  · exact hp ▸ v.touches_nil
  · exact .inr ⟨[], v, List.nil_prefix, Ne.symm hp, rfl, h⟩

theorem blocks_cons_iff : (Value.map m).Blocks (k :: p) ↔ ∃ v, m.get? k = some v ∧ v.Blocks p := by
  constructor
  · rintro ⟨front, w, hfront, hne, hw, hentries⟩
    rcases List.prefix_cons_iff.1 hfront with rfl | ⟨way, rfl, hway⟩
    · cases hw
      cases hentries
    · rw [reach?_cons, under?_map, Option.bind_eq_some_iff] at hw
      obtain ⟨v, hv, hw⟩ := hw
      exact ⟨v, hv, way, w, hway, fun h => hne (congrArg _ h), hw, hentries⟩
  · rintro ⟨v, hv, front, w, hfront, hne, hw, hentries⟩
    refine ⟨k :: front, w, List.cons_prefix_cons.2 ⟨rfl, hfront⟩, by simpa using hne, ?_, hentries⟩
    rw [reach?_cons, under?_map, hv]
    exact hw

theorem touches_cons_iff : (Value.map m).Touches (k :: p) ↔ ∃ v, m.get? k = some v ∧ v.Touches p := by
  simp only [Touches, blocks_cons_iff, and_or_left, exists_or]
  refine or_congr_left ?_
  rw [reach?_cons, under?_map, Option.isSome_bind, Option.any_eq_true]

end Value

/-! ## One layer -/

namespace Mapping

variable {lower upper : Mapping} {k : Key} {v w : Value} {p : List Key}

/-- At a key, the values of both layers are merged, or there is one only. -/
theorem get?_merge (h : upper.Pairwise fun e f => ¬e.1.same f.1) (lower : Mapping) (k : Key) :
    get? (merge lower upper) k =
      ((get? upper k).map (mergeValue (get? lower k))).or (get? lower k) := by
  induction upper generalizing lower with
  | nil => rw [merge_nil, get?_nil, Option.map_none, Option.none_or]
  | cons e upper ih =>
    obtain ⟨l, v⟩ := e
    rw [List.pairwise_cons] at h
    rw [merge, ih h.2, get?]
    by_cases hk : l.same k
    · -- The other entries are under other keys.
      have hnone : get? upper k = none := get?_eq_none_iff.2 fun e he hsame =>
        h.1 e he (Key.same_trans hk (Key.same_comm _ _ ▸ hsame))
      rw [if_pos hk, hnone, get?_put_same hk, get?_congr hk]
      rfl
    · rw [if_neg hk, get?_put_of_not_same hk]

theorem mergeValue_of_entries?_eq_none (h : v.entries? = none) (w : Option Value) :
    mergeValue w v = v := by
  cases v with
  | map m => cases h
  | _ =>
    rw [mergeValue]
    rintro m ⟨⟩

theorem mergeValue_map_of_entries?_eq_none (h : w.entries? = none) (upper : Mapping) :
    mergeValue (some w) (.map upper) = .map upper := by
  rw [mergeValue]
  rintro m ⟨⟩
  cases h

theorem exists_mergeValue_map (w : Option Value) (upper : Mapping) :
    ∃ m, mergeValue w (.map upper) = .map m := by
  cases w with
  | none => exact ⟨_, mergeValue_none _⟩
  | some w =>
    rcases w.eq_map_or_entries?_eq_none with ⟨lower, rfl⟩ | h
    · exact ⟨merge lower upper, by rw [mergeValue]⟩
    · exact ⟨_, mergeValue_map_of_entries?_eq_none h _⟩

/-- At a key of a mapping laid over a value, what both have there is merged in turn. -/
theorem under?_mergeValue (h : upper.Distinct) (w : Option Value) (k : Key) :
    (mergeValue w (.map upper)).under? k =
      ((get? upper k).map (mergeValue (w.bind (·.under? k)))).or (w.bind (·.under? k)) := by
  have hnone : (Value.map upper).under? k = ((get? upper k).map (mergeValue none)).or none := by
    cases hv : get? upper k <;> simp [hv]
  cases w with
  | none => rwa [mergeValue_none]
  | some w =>
    rcases w.eq_map_or_entries?_eq_none with ⟨lower, rfl⟩ | hw
    · rw [mergeValue]
      exact get?_merge h.pairwise lower k
    · rwa [mergeValue_map_of_entries?_eq_none hw, Option.bind_some,
        Value.under?_of_entries?_eq_none hw]

/-- Where a value has a say, what it is laid over has none, but for mappings, which are merged. -/
theorem reach?_mergeValue_of_touches (hv : v.Distinct) (h : v.Touches p) (w : Option Value) :
    (mergeValue w v).reach? p = (v.reach? p).map (mergeValue (w.bind (·.reach? p))) := by
  induction p generalizing v w with
  | nil => simp
  | cons k p ih =>
    rcases v.eq_map_or_entries?_eq_none with ⟨upper, rfl⟩ | hentries
    · obtain ⟨x, hx, hx'⟩ := Value.touches_cons_iff.1 h
      rw [Value.reach?_cons, under?_mergeValue hv, Value.reach?_cons, Value.under?_map, hx]
      rw [Option.map_some, Option.some_or, Option.bind_some, Option.bind_some,
        ih (Distinct.get? hv hx) hx', Option.bind_assoc]
      rfl
    · rw [mergeValue_of_entries?_eq_none hentries,
        Value.reach?_of_entries?_eq_none hentries (List.cons_ne_nil k p)]
      rfl

/-- Where a value has no say, what it is laid over stays as it is. -/
theorem reach?_mergeValue_of_not_touches (hv : v.Distinct) (h : ¬v.Touches p) (w : Option Value) :
    (mergeValue w v).reach? p = w.bind (·.reach? p) := by
  induction p generalizing v w with
  | nil => exact absurd v.touches_nil h
  | cons k p ih =>
    rcases v.eq_map_or_entries?_eq_none with ⟨upper, rfl⟩ | hentries
    · rw [Value.touches_cons_iff] at h
      rw [Value.reach?_cons, under?_mergeValue hv]
      cases hx : get? upper k with
      | none =>
        rw [Option.map_none, Option.none_or, Option.bind_assoc]
        rfl
      | some x =>
        rw [Option.map_some, Option.some_or, Option.bind_some,
          ih (Distinct.get? hv hx) (fun hx' => h ⟨x, hx, hx'⟩), Option.bind_assoc]
        rfl
    · exact absurd (Value.touches_of_entries?_eq_none hentries _) h

/-! ## Any number of layers -/

theorem map_merge (lower upper : Mapping) :
    Value.map (merge lower upper) = mergeValue (some (.map lower)) (.map upper) := by
  rw [mergeValue]

/-- Layers without a say at a path change nothing there. -/
theorem reach?_foldl_merge_of_not_touches {layers : List Mapping} (hd : ∀ l ∈ layers, l.Distinct)
    (h : ∀ l ∈ layers, ¬(Value.map l).Touches p) (m : Mapping) :
    (Value.map (layers.foldl merge m)).reach? p = (Value.map m).reach? p := by
  induction layers generalizing m with
  | nil => rfl
  | cons l layers ih =>
    rw [List.forall_mem_cons] at hd h
    rw [List.foldl_cons, ih hd.2 h.2, map_merge, reach?_mergeValue_of_not_touches hd.1 h.1,
      Option.bind_some]

/-- What the last layer with a say at a path has there is there in the end, with mappings merged. -/
theorem exists_reach?_mergeAll (below : List Mapping) {above : List Mapping} {l : Mapping}
    (hl : l.Distinct) (hd : ∀ u ∈ above, u.Distinct) (h : (Value.map l).Touches p)
    (habove : ∀ u ∈ above, ¬(Value.map u).Touches p) :
    ∃ w, (Value.map (mergeAll (below ++ l :: above))).reach? p =
      ((Value.map l).reach? p).map (mergeValue w) := by
  rw [mergeAll, List.foldl_append, List.foldl_cons, reach?_foldl_merge_of_not_touches hd habove,
    map_merge]
  exact ⟨_, reach?_mergeValue_of_touches hl h _⟩

theorem mergeValue_eq_iff (hv : v.entries? = none) {u : Value} {w : Option Value} :
    mergeValue w u = v ↔ u = v := by
  rcases u.eq_map_or_entries?_eq_none with ⟨m, rfl⟩ | hu
  · obtain ⟨sub, hsub⟩ := exists_mergeValue_map w m
    rw [hsub]
    exact iff_of_false (fun h => by rw [← h] at hv; cases hv) fun h => by rw [← h] at hv; cases hv
  · rw [mergeValue_of_entries?_eq_none hu]

theorem exists_eq_map_of_mergeValue_eq {u : Value} {w : Option Value} {m : Mapping}
    (h : mergeValue w u = .map m) : ∃ sub, u = .map sub := by
  rcases u.eq_map_or_entries?_eq_none with hu | hu
  · exact hu
  · rw [mergeValue_of_entries?_eq_none hu] at h
    exact ⟨m, h⟩

/-- At every path but the empty one, nothing stands where no layer has a say. Elsewhere the last layer
    with a say decides: the value that stands there in it stands there in the end, a mapping stands
    there if one does in the layer, and nothing if something is in the way in the layer. -/
def LastDecides (layers : List Mapping) (config : Mapping) : Prop :=
  ∀ path ≠ [],
    ((∀ l ∈ layers, ¬(Value.map l).Touches path) → (Value.map config).reach? path = none) ∧
    ∀ below l above, layers = below ++ l :: above → (Value.map l).Touches path →
      (∀ u ∈ above, ¬(Value.map u).Touches path) →
        (∀ v, v.entries? = none →
          ((Value.map config).reach? path = some v ↔ (Value.map l).reach? path = some v)) ∧
        ((∃ m, (Value.map config).reach? path = some (.map m)) ↔
          ∃ m, (Value.map l).reach? path = some (.map m)) ∧
        ((Value.map config).reach? path = none ↔ (Value.map l).Blocks path)

theorem lastDecides_mergeAll {layers : List Mapping} (hd : ∀ l ∈ layers, l.Distinct) :
    LastDecides layers (mergeAll layers) := by
  refine fun path hne => ⟨fun hnone => ?_, ?_⟩
  · rw [mergeAll, reach?_foldl_merge_of_not_touches hd hnone]
    obtain ⟨k, path, rfl⟩ := List.exists_cons_of_ne_nil hne
    rfl
  · rintro below l above rfl hl habove
    rw [List.forall_mem_append, List.forall_mem_cons] at hd
    obtain ⟨w, hw⟩ := exists_reach?_mergeAll below hd.2.1 hd.2.2 hl habove
    rw [hw]
    refine ⟨fun v hv => ?_, ⟨?_, ?_⟩, ?_⟩
    · simp [Option.map_eq_some_iff, mergeValue_eq_iff hv]
    · rintro ⟨m, hm⟩
      obtain ⟨u, hu, hmap⟩ := Option.map_eq_some_iff.1 hm
      obtain ⟨sub, rfl⟩ := exists_eq_map_of_mergeValue_eq hmap
      exact ⟨sub, hu⟩
    · rintro ⟨m, hm⟩
      obtain ⟨sub, hsub⟩ := exists_mergeValue_map w m
      exact ⟨sub, by rw [hm, Option.map_some, hsub]⟩
    · rw [Option.map_eq_none_iff, hl.reach?_eq_none_iff]

end Mapping

/-! ## The layers of a project -/

namespace Config

variable {files files' : Files} {root : Place}

/-- The configuration of a project below the variables: its layers laid over each other. -/
def merged (files : Files) (root : Place) : Logged Mapping :=
  (layerNames files root).foldlM (addLayer files root) (Mapping.merge [] defaults)

/-- The layers of a project that are files, read in the order of their names. -/
def readLayers (files : Files) (root : Place) : Except Fault (List Mapping) :=
  (layerNames files root).mapM fun name => readLayer files root (layerPath root name)

/-- The variables are laid over the merged layers, and then the configuration is checked. -/
theorem result_compute (files : Files) (env : Variable.Environment) (bundled : String)
    (root : Place) (validated : Bool) : (compute files env bundled root validated).result = do
      let config ← (merged files root).result
      let config ← (override env config).result
      if validated then validate (.map config)
      return config := by
  rw [compute, merged]
  simp only [Logged.result_bind, apply_ite Logged.result]
  cases validated <;> rfl

theorem result_addLayer (files : Files) (root : Place) (config : Mapping) (name : String) :
    (addLayer files root config name).result =
      (readLayer files root (layerPath root name)).map config.merge := by
  rw [addLayer]
  simp only [Logged.result_bind]
  cases readLayer files root (layerPath root name) <;> rfl

/-- Reading and merging the layers one by one is reading all of them and then merging them. -/
theorem result_merged (files : Files) (root : Place) : (merged files root).result =
    (readLayers files root).map fun layers => Mapping.mergeAll (defaults :: layers) := by
  have hfold (names : List String) (m : Mapping) :
      names.foldlM (fun m name => (addLayer files root m name).result) m =
        (names.mapM fun name => readLayer files root (layerPath root name)).map
          fun layers => layers.foldl Mapping.merge m := by
    induction names generalizing m with
    | nil => rfl
    | cons name names ih =>
      rw [List.foldlM_cons, List.mapM_cons, result_addLayer]
      cases readLayer files root (layerPath root name) with
      | error e => rfl
      | ok l =>
        refine (ih (m.merge l)).trans ?_
        cases names.mapM fun name => readLayer files root (layerPath root name) <;> rfl
  rw [merged, Logged.result_foldlM, hfold]
  rfl

/-- All layers have distinct keys. -/
theorem distinct_of_mem_readLayers {layers : List Mapping} {l : Mapping}
    (h : readLayers files root = .ok layers) (hl : l ∈ defaults :: layers) : l.Distinct := by
  rcases List.mem_cons.1 hl with rfl | hl
  · exact distinct_defaults
  · exact forall_mem_of_mapM_eq_ok (fun _ _ => distinct_of_readLayer) h l hl

/-! ## The order of the files -/

/-- Layers are read alike if the same stands everywhere, in whatever order it is listed. -/
theorem readLayer_congr (h : files'.find? = files.find?) : readLayer files' = readLayer files := by
  have hwalk : files'.walk = files.walk := by
    funext p name
    rw [Files.walk, Files.walk, h]
  have hread : files'.read = files.read := by
    funext cwd p
    rw [Files.read, Files.read, Files.locate, Files.locate, hwalk, h]
  funext cwd p
  rw [readLayer, readLayer, Files.readText, Files.readText, hread]

/-- The names of the layers do not depend on the order in which they are listed. -/
theorem layerNames_congr (hs : files.Sound) (hs' : files'.Sound) (h : files'.find? = files.find?) :
    layerNames files' root = layerNames files root := by
  rw [layerNames_eq hs, layerNames_eq hs']
  refine sort_eq_of_mem_iff ((hs'.nodup_names _).filter _) ((hs.nodup_names _).filter _) fun s => ?_
  rw [List.mem_filter, List.mem_filter, Files.mem_names, Files.mem_names, h]

theorem merged_congr (hs : files.Sound) (hs' : files'.Sound) (h : files'.find? = files.find?) :
    merged files' root = merged files root := by
  have hadd : addLayer files' root = addLayer files root := by
    funext config name
    rw [addLayer, addLayer, readLayer_congr h]
  rw [merged, merged, layerNames_congr hs hs' h, hadd]

/-- The layers come in the order of their names. -/
theorem pairwise_layerNames (hs : files.Sound) : (layerNames files root).Pairwise (· < ·) := by
  rw [layerNames_eq hs]
  exact pairwise_lt_sort id (by simpa using (hs.nodup_names _).filter _)

/-! ## Precedence -/

/-- The last layer with a say at a path decides what stands there, in any sequence of layers that are
    merged from the lowest one on. In a project the layers are the bundled one and the files of the
    project in the order of their names, however the directory lists them, and they are merged if all
    of them can be read. -/
theorem last_layer_decides :
    (∀ layers : List Mapping, (∀ l ∈ layers, l.Distinct) →
      Mapping.LastDecides layers (Mapping.mergeAll layers)) ∧
    ∀ (files : Files) (root : Place), files.Sound →
      (layerNames files root).Pairwise (· < ·) ∧
      (∀ name, name ∈ layerNames files root ↔
        name ∈ files.names (root ++ projectDirectory) ∧ isLayerName name) ∧
      (∀ files' : Files, files'.Sound → files'.find? = files.find? →
        merged files' root = merged files root) ∧
      (merged files root).result =
        (readLayers files root).map (fun layers => Mapping.mergeAll (defaults :: layers)) ∧
      ∀ layers, readLayers files root = .ok layers →
        Mapping.LastDecides (defaults :: layers) (Mapping.mergeAll (defaults :: layers)) := by
  refine ⟨fun layers => Mapping.lastDecides_mergeAll, fun files root hs => ?_⟩
  refine ⟨pairwise_layerNames hs, fun name => mem_layerNames hs,
    fun files' hs' h => merged_congr hs hs' h, result_merged files root, fun layers hlayers => ?_⟩
  exact Mapping.lastDecides_mergeAll fun l => distinct_of_mem_readLayers hlayers

/-- A mapping that was replaced is lost, even if there is one again in a higher layer. In a project
    without files, the bundled layer decides. -/
theorem mapping_lost_under_scalar :
    let low : Mapping := [(.str "a", .map [(.str "b", .int 1), (.str "c", .int 2)])]
    let middle : Mapping := [(.str "a", .int 3)]
    let high : Mapping := [(.str "a", .map [(.str "b", .int 4)])]
    let config := Mapping.mergeAll [low, middle, high]
    let path : List Key := [.str "delimiters", .str "start"]
    (∀ l ∈ [low, middle, high], l.Distinct) ∧
      (Value.map config).reach? [.str "a", .str "b"] = some (.int 4) ∧
      (Value.map config).reach? [.str "a", .str "c"] = none ∧
      (merged .empty []).result = .ok (Mapping.mergeAll [defaults]) ∧
      (Value.map (Mapping.mergeAll [defaults])).reach? path = some (.str "*(") := by
  intro low middle high config path
  have hd : ∀ l ∈ [low, middle, high], l.Distinct := by decide
  have hdecides := last_layer_decides.1 _ hd
  obtain ⟨hb, -, -⟩ := (hdecides [.str "a", .str "b"] nofun).2 [low, middle] high [] rfl
    (by decide) nofun
  obtain ⟨-, -, hc⟩ := (hdecides [.str "a", .str "c"] nofun).2 [low] middle [high] rfl
    (by decide) (by decide)
  obtain ⟨-, -, -, hmerged, hproject⟩ := last_layer_decides.2 .empty [] .empty
  obtain ⟨hstart, -, -⟩ := (hproject [] rfl path nofun).2 [] defaults [] rfl (by decide) nofun
  exact ⟨hd, (hb _ rfl).2 rfl, hc.2 (by decide), hmerged, (hstart _ rfl).2 rfl⟩

end Config

end Stencil
