import Stencil.Config.Layer
import Stencil.Proofs.FileHistory

/-!
# Distinct keys

A mapping is the list of its entries, and in one that was built entry by entry no two of them are
under the same key. So it is with all mappings in a document, and with the layers of a configuration.

* `Value.Distinct`: no mapping in a value has two entries under the same key;
* `Mapping.Distinct.put`: this stays so when an entry is put in;
* `Config.distinct_of_readLayer`, `Config.distinct_defaults`: it is so in all layers.
-/

namespace Stencil

/-- No mapping in a value has two entries under the same key. -/
inductive Value.Distinct : Value → Prop
  | scalar (s : Scalar) : Distinct (.scalar s)
  | list {vs : List Value} : (∀ v ∈ vs, Distinct v) → Distinct (.list vs)
  | tuple {vs : List Value} : (∀ v ∈ vs, Distinct v) → Distinct (.tuple vs)
  | map {es : Mapping} : es.Pairwise (fun e f => ¬e.1.same f.1) → (∀ e ∈ es, Distinct e.2) →
      Distinct (.map es)

namespace Value

mutual

/-- Whether all keys are distinct can be told. -/
def decDistinct : (v : Value) → Decidable v.Distinct
  | .scalar s => isTrue (.scalar s)
  | .list vs =>
    match decDistinctItems vs with
    | isTrue h => isTrue (.list h)
    | isFalse h => isFalse fun | .list h' => h h'
  | .tuple vs =>
    match decDistinctItems vs with
    | isTrue h => isTrue (.tuple h)
    | isFalse h => isFalse fun | .tuple h' => h h'
  | .map es =>
    if hkeys : es.Pairwise fun e f => ¬e.1.same f.1 then
      match decDistinctEntries es with
      | isTrue h => isTrue (.map hkeys h)
      | isFalse h => isFalse fun | .map _ h' => h h'
    else isFalse fun | .map hkeys' _ => hkeys hkeys'

/-- Whether they are in all values of a list. -/
def decDistinctItems : (vs : List Value) → Decidable (∀ v ∈ vs, v.Distinct)
  | [] => isTrue nofun
  | v :: vs =>
    match decDistinct v, decDistinctItems vs with
    | isTrue h, isTrue hs => isTrue (List.forall_mem_cons.2 ⟨h, hs⟩)
    | isFalse h, _ => isFalse fun h' => h (List.forall_mem_cons.1 h').1
    | _, isFalse hs => isFalse fun h' => hs (List.forall_mem_cons.1 h').2

/-- Whether they are in the values of all entries. -/
def decDistinctEntries : (es : Mapping) → Decidable (∀ e ∈ es, e.2.Distinct)
  | [] => isTrue nofun
  | (_, v) :: es =>
    match decDistinct v, decDistinctEntries es with
    | isTrue h, isTrue hs => isTrue (List.forall_mem_cons.2 ⟨h, hs⟩)
    | isFalse h, _ => isFalse fun h' => h (List.forall_mem_cons.1 h').1
    | _, isFalse hs => isFalse fun h' => hs (List.forall_mem_cons.1 h').2

end

instance : DecidablePred Distinct := decDistinct

end Value

namespace Mapping

/-- No two entries of a mapping are under the same key, nor those of any mapping in it. -/
abbrev Distinct (m : Mapping) : Prop := (Value.map m).Distinct

variable {m : Mapping} {k l : Key} {v w : Value} {e : Key × Value}

/-! ## Entries -/

/-- A key that is there keeps its place and gets the new value, so no key comes twice. -/
theorem pairwise_put (h : m.Pairwise fun e f => ¬e.1.same f.1) (k : Key) (v : Value) :
    (put m k v).Pairwise fun e f => ¬e.1.same f.1 := by
  induction m with
  | nil => exact List.pairwise_singleton _ _
  | cons e m ih =>
    rw [List.pairwise_cons] at h
    rw [put]
    split
    · exact List.pairwise_cons.2 h
    · next hk =>
      refine List.pairwise_cons.2 ⟨fun f hf => ?_, ih h.2⟩
      -- The keys that come after the first one are those that came before, and the new one.
      rcases eq_of_mem_put hf with hf | rfl | ⟨g, hg, rfl⟩
      · exact h.1 f hf
      · exact hk
      · exact h.1 g hg

/-! ## Distinct mappings -/

namespace Distinct

theorem pairwise (h : m.Distinct) : m.Pairwise fun e f => ¬e.1.same f.1 := by
  cases h with
  | map hkeys hvalues => exact hkeys

/-- The values of a mapping with distinct keys have distinct keys. -/
theorem snd (h : m.Distinct) (he : e ∈ m) : e.2.Distinct := by
  cases h with
  | map hkeys hvalues => exact hvalues e he

theorem get? (h : m.Distinct) (hv : m.get? k = some v) : v.Distinct := by
  obtain ⟨e, he, rfl⟩ := exists_mem_of_get? hv
  exact h.snd he

/-- Without its first entry a mapping still has distinct keys. -/
theorem tail (h : Distinct (e :: m)) : m.Distinct :=
  .map (List.pairwise_cons.1 h.pairwise).2 fun _ hf => h.snd (List.mem_cons_of_mem _ hf)

/-- This stays so when an entry is put in whose value has distinct keys. -/
theorem put (h : m.Distinct) (hv : v.Distinct) (k : Key) : (m.put k v).Distinct := by
  refine .map (pairwise_put h.pairwise k v) fun e he => ?_
  rcases eq_of_mem_put he with he | rfl | ⟨f, -, rfl⟩
  · exact h.snd he
  · exact hv
  · exact hv

/-- A mapping that is built entry by entry has distinct keys. -/
theorem putAll {pairs : List (Key × Value)} (h : m.Distinct) (hpairs : ∀ p ∈ pairs, p.2.Distinct) :
    (m.putAll pairs).Distinct := by
  induction pairs generalizing m with
  | nil => exact h
  | cons p pairs ih =>
    rw [List.forall_mem_cons] at hpairs
    exact ih (h.put hpairs.1 p.1) hpairs.2

end Distinct

theorem distinct_nil : Distinct [] := .map .nil fun _ he => absurd he List.not_mem_nil

end Mapping

/-! ## Documents -/

namespace Yaml

mutual

/-- The mappings of a tree are built entry by entry, whatever its keys are. -/
theorem Tree.distinct_value : ∀ t : Tree, t.value.Distinct
  | .scalar s => .scalar s
  | .list items => .list (Tree.distinct_of_mem_values items)
  | .map entries => Mapping.distinct_nil.putAll (Tree.distinct_of_mem_pairs entries)
  | .fault _ => .scalar _
  | .brokenParts _ => .scalar _

theorem Tree.distinct_of_mem_values : ∀ ts : List Tree, ∀ v ∈ Tree.value.values ts, v.Distinct
  | [] => fun _ hv => absurd hv List.not_mem_nil
  | t :: ts => List.forall_mem_cons.2 ⟨t.distinct_value, Tree.distinct_of_mem_values ts⟩

theorem Tree.distinct_of_mem_pairs :
    ∀ es : List (Tree × Tree), ∀ p ∈ Tree.value.pairs es, p.2.Distinct
  | [] => fun _ hp => absurd hp List.not_mem_nil
  | (_, v) :: es => List.forall_mem_cons.2 ⟨v.distinct_value, Tree.distinct_of_mem_pairs es⟩

end

/-- In no mapping of a document is a key twice, even if it is written twice. -/
theorem distinct_of_read {text : String} {v : Value} (h : read text = .ok v) : v.Distinct := by
  obtain ⟨node, -, h⟩ := exists_of_bind_eq_ok h
  cases node with
  | none =>
    cases h
    exact .scalar _
  | some n =>
    dsimp only at h
    split at h
    · cases h
    · cases h
      exact n.toTree.distinct_value

end Yaml

/-! ## Layers -/

namespace Config

theorem distinct_of_layerOfText {path text : String} {m : Mapping}
    (h : layerOfText path text = .ok m) : m.Distinct := by
  unfold layerOfText at h
  split at h
  · cases h
    exact Mapping.distinct_nil
  · next hread =>
    cases h
    exact Yaml.distinct_of_read hread
  · cases h
  · cases h
  · cases h

/-- The layers that files are have distinct keys. -/
theorem distinct_of_readLayer {files : Files} {cwd : Place} {p : FilePath} {m : Mapping}
    (h : readLayer files cwd p = .ok m) : m.Distinct := by
  obtain ⟨text, -, h⟩ := exists_of_bind_eq_ok h
  exact distinct_of_layerOfText h

/-- So has the bundled layer. -/
theorem distinct_defaults : Mapping.Distinct defaults := by decide

end Config

end Stencil
