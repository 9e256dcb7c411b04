import Stencil.Config.Cache
import Stencil.Proofs.FileHistory

/-!
# Observed files and layers

What the key of a configuration is made of, beside what the configuration is computed from. The names
of layers and the names that are observed are told apart by their endings in two ways, which agree
except for a name that is nothing but an ending.

* `isLayerName_iff`: the names of layers;
* `layerNames_eq_of_observe`, `find?_eq_of_observe`: the same observation, the same layers;
* `compute_eq_of_observe`: the same observation, the same configuration.
-/

namespace Stencil

/-! ## Endings -/

/-- The ending of a name stands from its last point on, and something stands before. -/
theorem FilePath.toList_ending_eq_iff {name : String} {tail : List Char} (hne : tail ≠ [])
    (hpoint : '.' ∉ tail) : (ending name).toList = '.' :: tail ↔
      ∃ base, base ≠ [] ∧ name.toList = base ++ '.' :: tail := by
  unfold ending
  dsimp only
  rw [← String.length_toList]
  constructor
  · intro h
    split at h
    · cases h
    · next hlong =>
      rw [Bool.or_eq_true, not_or] at hlong
      have hlen := of_decide_eq_false (Bool.eq_false_iff.2 hlong.2)
      rw [String.toList_ofList] at h
      refine ⟨_, ?_, (by rw [← h, List.take_append_drop])⟩
      intro hbase
      have hzero := congrArg List.length hbase
      rw [List.length_take, List.length_nil] at hzero
      omega
  · rintro ⟨base, hbase, hname⟩
    have htail : name.toList.reverse.takeWhile (· ≠ '.') = tail.reverse := by
      rw [hname, List.reverse_append, List.reverse_cons, List.append_assoc,
        List.takeWhile_append_of_pos]
      · simp
      · intro c hc
        exact decide_eq_true fun he => hpoint (he ▸ List.mem_reverse.1 hc)
    have hpos := List.length_pos_iff.2 hbase
    rw [htail, hname, if_neg (by simp [hne]; omega), String.toList_ofList]
    simp

namespace Config

/-- A name that is nothing but the ending of a layer. -/
def IsBare (name : String) : Prop := name = ".yaml" ∨ name = ".yml"

variable {name : String}

theorem isObservedName_iff : isObservedName name ↔ ∃ base, base ≠ [] ∧
    (name.toList = base ++ ".yaml".toList ∨ name.toList = base ++ ".yml".toList) := by
  have hyaml : (FilePath.ending name).toList = '.' :: "yaml".toList ↔ _ :=
    FilePath.toList_ending_eq_iff (by decide) (by decide)
  have hyml : (FilePath.ending name).toList = '.' :: "yml".toList ↔ _ :=
    FilePath.toList_ending_eq_iff (by decide) (by decide)
  rw [isObservedName, decide_eq_true_eq, ← String.toList_inj, ← String.toList_inj]
  simp only [and_or_left, exists_or]
  exact or_congr hyaml hyml

theorem isLayerName_iff_exists : isLayerName name ↔ ∃ base,
    name.toList = base ++ ".yaml".toList ∨ name.toList = base ++ ".yml".toList := by
  rw [isLayerName, Bool.or_eq_true, FilePath.endsIn, FilePath.endsIn, List.isSuffixOf_iff_suffix,
    List.isSuffixOf_iff_suffix, exists_or]
  exact or_congr (exists_congr fun _ => eq_comm) (exists_congr fun _ => eq_comm)

/-- The layers are the files that are observed, and those that are called by a mere ending. -/
theorem isLayerName_iff : isLayerName name ↔ isObservedName name ∨ IsBare name := by
  rw [isLayerName_iff_exists, isObservedName_iff, IsBare, ← String.toList_inj,
    ← String.toList_inj]
  constructor
  · rintro ⟨base, h⟩
    by_cases hbase : base = []
    · subst hbase
      exact .inr h
    · exact .inl ⟨base, hbase, h⟩
  · rintro (⟨base, -, h⟩ | h)
    · exact ⟨base, h⟩
    · exact ⟨[], h⟩

/-! ## Layers -/

variable {files files' : Files} {env env' : Variable.Environment} {root : Place}

/-- What is sorted by different names is in the strict order of the names. -/
theorem pairwise_lt_sort {α : Type} (f : α → String) {l : List α} (h : (l.map f).Nodup) :
    (sort (fun a b => f a ≤ f b) l).Pairwise fun a b => f a < f b := by
  have total (a b : α) : (decide (f a ≤ f b) || decide (f b ≤ f a)) = true := by
    simpa using String.le_total (f a) (f b)
  have trans (a b c : α) : decide (f a ≤ f b) = true → decide (f b ≤ f c) = true →
      decide (f a ≤ f c) = true := by
    simpa using String.le_trans
  have hne := List.pairwise_map.1 (((sort_perm (fun a b => f a ≤ f b) l).map f).nodup_iff.2 h)
  refine (hne.and (pairwise_sort total trans l)).imp fun {a b} ⟨hne, hle⟩ => ?_
  exact String.not_le.1 fun hge => hne (String.le_antisymm (of_decide_eq_true hle) hge)

/-- Sorted lists of the same names are the same. -/
theorem sort_eq_of_mem_iff {l l' : List String} (h : l.Nodup) (h' : l'.Nodup)
    (hm : ∀ s, s ∈ l ↔ s ∈ l') : sort (fun a b => a ≤ b) l = sort (fun a b => a ≤ b) l' := by
  refine List.Perm.eq_of_pairwise (fun a b _ _ hab hba => absurd hba (String.lt_asymm hab))
    (pairwise_lt_sort id (by simpa using h)) (pairwise_lt_sort id (by simpa using h')) ?_
  exact ((sort_perm _ l).trans ((List.perm_ext_iff_of_nodup h h').2 hm)).trans (sort_perm _ l').symm

/-- Where there is no directory, there are no names. -/
theorem names_of_not_isDirectory (h : files.Sound) {p : Place} (hp : ¬files.isDirectory p) :
    files.names p = [] := by
  refine List.eq_nil_iff_forall_not_mem.2 fun name hname => hp ?_
  obtain ⟨e, he⟩ := Option.isSome_iff_exists.1 (Files.mem_names.1 hname)
  rw [Files.isDirectory, h.parent he]

theorem layerNames_eq (h : files.Sound) : layerNames files root =
    sort (fun a b => a ≤ b) ((files.names (root ++ projectDirectory)).filter isLayerName) := by
  unfold layerNames
  dsimp only
  split
  · rfl
  · next hd => rw [names_of_not_isDirectory h hd]; rfl

theorem observe_eq (h : files.Sound) : observe files env root = ⟨Variable.relevant env,
    (sort (fun a b => a ≤ b)
      ((files.names (root ++ projectDirectory)).filter isObservedName)).map fun name =>
        (name, facts files (root ++ projectDirectory ++ [name]))⟩ := by
  unfold observe
  dsimp only
  split
  · rfl
  · next hd => rw [names_of_not_isDirectory h hd]; rfl

/-- The way to a layer goes down only. -/
theorem not_mem_layerPlace (hroot : root.IsClean) (hname : name ≠ "..") :
    ".." ∉ root ++ projectDirectory ++ [name] := by
  intro hm
  rcases List.mem_append.1 hm with hm | hm
  · rcases List.mem_append.1 hm with hm | hm
    · exact (hroot _ hm).ne_up rfl
    · exact absurd hm (by decide)
  · exact hname (List.mem_singleton.1 hm).symm

theorem mem_layerNames (h : files.Sound) : name ∈ layerNames files root ↔
    name ∈ files.names (root ++ projectDirectory) ∧ isLayerName name := by
  rw [layerNames_eq h, mem_sort, List.mem_filter]

/-- What is observed of the files: the facts of all whose names count. -/
theorem mem_observe_files (h : files.Sound) {x : Nat × Nat} :
    (name, x) ∈ (observe files env root).files ↔ name ∈ files.names (root ++ projectDirectory) ∧
      isObservedName name ∧ facts files (root ++ projectDirectory ++ [name]) = x := by
  rw [observe_eq h, List.mem_map]
  constructor
  · rintro ⟨n, hn, heq⟩
    cases heq
    obtain ⟨hnames, hobserved⟩ := List.mem_filter.1 (mem_sort.1 hn)
    exact ⟨hnames, hobserved, rfl⟩
  · rintro ⟨hnames, hobserved, rfl⟩
    exact ⟨name, mem_sort.2 (List.mem_filter.2 ⟨hnames, hobserved⟩), rfl⟩

section SameObservation

variable {made : String → Prop} (h : files.Sound) (h' : files'.Sound)
  (hl : Files.Later IsBare made files files') (hm : ∀ n, made n → ¬isLayerName n)
  (ho : observe files env root = observe files' env' root)

include h h' ho in
theorem relevant_eq_of_observe : Variable.relevant env = Variable.relevant env' := by
  rw [observe_eq h, observe_eq h', Observed.mk.injEq] at ho
  exact ho.1

include h h' ho in
/-- Under an observed name, the same observation has something in both states or in none. -/
theorem facts_eq_of_observe (hname : isObservedName name) :
    (name ∈ files.names (root ++ projectDirectory) ↔
      name ∈ files'.names (root ++ projectDirectory)) ∧
    (name ∈ files.names (root ++ projectDirectory) →
      facts files' (root ++ projectDirectory ++ [name]) =
        facts files (root ++ projectDirectory ++ [name])) := by
  have hmem (x : Nat × Nat) : (name, x) ∈ (observe files env root).files ↔ _ := mem_observe_files h
  have hmem' (x : Nat × Nat) : (name, x) ∈ (observe files' env' root).files ↔ _ :=
    mem_observe_files h'
  rw [ho] at hmem
  refine ⟨⟨fun hn => ?_, fun hn => ?_⟩, fun hn => ?_⟩
  · exact ((hmem' _).1 ((hmem _).2 ⟨hn, hname, rfl⟩)).1
  · exact ((hmem _).1 ((hmem' _).2 ⟨hn, hname, rfl⟩)).1
  · exact ((hmem' _).1 ((hmem _).2 ⟨hn, hname, rfl⟩)).2.2

include h h' hl hm ho in
/-- As long as the observation stays the same, the layers of the project stay as they are. A file
    that was observed is still the one that was written with its number. -/
theorem find?_eq_of_observe (hname : isLayerName name) :
    files'.find? (root ++ projectDirectory ++ [name]) =
      files.find? (root ++ projectDirectory ++ [name]) := by
  rcases isLayerName_iff.1 hname with hobserved | hbare
  · obtain ⟨hiff, hfacts⟩ := facts_eq_of_observe h h' ho hobserved
    rw [Files.mem_names, Files.mem_names] at hiff
    rw [Files.mem_names] at hfacts
    cases he : files.find? (root ++ projectDirectory ++ [name]) with
    | none =>
      rw [he] at hiff
      exact Option.not_isSome_iff_eq_none.1 fun hsome => by simpa using hiff.2 hsome
    | some e =>
      rw [he] at hiff hfacts
      obtain ⟨e', he'⟩ := Option.isSome_iff_exists.1 (hiff.1 rfl)
      have hfacts := hfacts rfl
      rw [facts, facts, he, he'] at hfacts
      rw [he']
      cases e with
      | directory => rw [← he', hl.directory he]
      | file content stamp =>
        cases e' with
        | directory =>
          -- An empty file may have the facts of a directory, but no layer has become a directory.
          rcases hl.new he' with hd | hmade
          · rw [he] at hd
            cases hd
          · exact absurd hname (hm name hmade)
        | file content' stamp' =>
          obtain rfl : stamp' = stamp := congrArg Prod.fst hfacts
          rw [← he, hl.old he' (h.stamp_lt he)]
  · exact hl.find?_fixed hbare

include h h' hl hm ho in
theorem layerNames_eq_of_observe : layerNames files' root = layerNames files root := by
  rw [layerNames_eq h, layerNames_eq h']
  refine sort_eq_of_mem_iff ((h'.nodup_names _).filter _) ((h.nodup_names _).filter _) fun name => ?_
  rw [List.mem_filter, List.mem_filter]
  refine and_congr_left fun hname => ?_
  rw [Files.mem_names, Files.mem_names, find?_eq_of_observe h h' hl hm ho hname]

include h h' hl hm ho in
theorem readLayer_eq_of_observe (hroot : root.IsClean) (hname : name ∈ layerNames files root) :
    readLayer files' root (layerPath root name) = readLayer files root (layerPath root name) := by
  obtain ⟨hnames, hlayer⟩ := (mem_layerNames h).1 hname
  obtain ⟨e, he⟩ := Option.isSome_iff_exists.1 (Files.mem_names.1 hnames)
  have he' := (find?_eq_of_observe h h' hl hm ho hlayer).trans he
  have hup : ".." ∉ root ++ projectDirectory ++ [name] := by
    refine not_mem_layerPlace hroot fun hn => ?_
    rw [hn] at hlayer
    exact absurd hlayer (by decide)
  rw [readLayer, readLayer, Files.readText, Files.readText, layerPath,
    Files.read_congr h h' hup he he']

include h h' hl hm ho in
/-- As long as the observation stays the same, so does the configuration. -/
theorem compute_eq_of_observe (hroot : root.IsClean) (bundled : String) (validated : Bool) :
    compute files' env' bundled root validated = compute files env bundled root validated := by
  have hfold : ∀ names ⊆ layerNames files root, ∀ config,
      names.foldlM (addLayer files' root) config = names.foldlM (addLayer files root) config := by
    intro names hnames
    induction names with
    | nil => exact fun config => rfl
    | cons name names ih =>
      intro config
      obtain ⟨hname, hnames⟩ := List.cons_subset.1 hnames
      have hadd : addLayer files' root config name = addLayer files root config name := by
        rw [addLayer, addLayer, readLayer_eq_of_observe h h' hl hm ho hroot hname]
      rw [List.foldlM_cons, List.foldlM_cons, hadd]
      exact congrArg _ (funext (ih hnames))
  have hoverride : override env' = override env :=
    funext fun config => by rw [override, override, relevant_eq_of_observe h h' ho]
  rw [compute, compute, layerNames_eq_of_observe h h' hl hm ho, hfold _ (List.Subset.refl _),
    hoverride]

end SameObservation

end Config

end Stencil
