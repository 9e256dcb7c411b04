import Stencil.Proofs.DoubleDigits
import Stencil.Proofs.EnvironmentPrecedence
import Stencil.Proofs.Readings

/-!
# All parts of a value

A property that all keys in a value have, and one that all other scalars in it have. Laying layers over
each other and putting values at paths brings no scalar into a configuration that was not in one of the
layers or the values. So all numbers in a configuration are what readers of numbers give.

* `Value.Every`: all keys and all scalars in a value have a property;
* `Value.IsShort`: no integer in a value has too many digits;
* `Mapping.every_merge`, `Mapping.every_setAt`: what layers and values have, all of it has;
* `Yaml.every_of_read`, `Coercion.every_of_read`: the scalars of documents and of variables;
* `Config.isProper_of_compute`: the numbers of a configuration have 53 bits at most.
-/

namespace Stencil

/-- All scalars in a key have a property. -/
inductive Key.Every (P : Scalar → Prop) : Key → Prop
  | scalar {s : Scalar} : P s → Every P (.scalar s)
  | tuple {ks : List Key} : (∀ k ∈ ks, Every P k) → Every P (.tuple ks)

/-- All keys of mappings in a value have the property `K`, and all scalars that are not in a key have
    the property `P`. -/
inductive Value.Every (K : Key → Prop) (P : Scalar → Prop) : Value → Prop
  | scalar {s : Scalar} : P s → Every K P (.scalar s)
  | list {vs : List Value} : (∀ v ∈ vs, Every K P v) → Every K P (.list vs)
  | tuple {vs : List Value} : (∀ v ∈ vs, Every K P v) → Every K P (.tuple vs)
  | map {es : Mapping} : (∀ e ∈ es, K e.1) → (∀ e ∈ es, Every K P e.2) → Every K P (.map es)

namespace Key.Every

variable {P : Scalar → Prop} {s : Scalar} {ks : List Key}

theorem scalar_iff : (Key.scalar s).Every P ↔ P s :=
  ⟨fun | .scalar h => h, .scalar⟩

theorem tuple_iff : (Key.tuple ks).Every P ↔ ∀ k ∈ ks, k.Every P :=
  ⟨fun | .tuple h => h, .tuple⟩

end Key.Every

/-- A value in which no integer has too many digits, also not in keys. -/
abbrev Value.IsShort (v : Value) : Prop := v.Every (Key.Every Scalar.IsShort) Scalar.IsShort

namespace Value.Every

variable {K L : Key → Prop} {P Q : Scalar → Prop} {v : Value} {s : Scalar} {vs : List Value}
  {es : Mapping}

theorem scalar_iff : (Value.scalar s).Every K P ↔ P s :=
  ⟨fun | .scalar h => h, .scalar⟩

theorem list_iff : (Value.list vs).Every K P ↔ ∀ v ∈ vs, v.Every K P :=
  ⟨fun | .list h => h, .list⟩

theorem tuple_iff : (Value.tuple vs).Every K P ↔ ∀ v ∈ vs, v.Every K P :=
  ⟨fun | .tuple h => h, .tuple⟩

theorem map_iff : (Value.map es).Every K P ↔ (∀ e ∈ es, K e.1) ∧ ∀ e ∈ es, e.2.Every K P :=
  ⟨fun | .map h h' => ⟨h, h'⟩, fun h => .map h.1 h.2⟩

/-- Two properties that all parts of a value have, they have at once. -/
theorem and (h : v.Every K P) (h' : v.Every L Q) :
    v.Every (fun k => K k ∧ L k) (fun s => P s ∧ Q s) := by
  induction h with
  | scalar h => exact .scalar ⟨h, scalar_iff.1 h'⟩
  | list _ ih => exact .list fun v hv => ih v hv (list_iff.1 h' v hv)
  | tuple _ ih => exact .tuple fun v hv => ih v hv (tuple_iff.1 h' v hv)
  | map hkeys _ ih =>
    obtain ⟨hkeys', hvalues'⟩ := map_iff.1 h'
    exact .map (fun e he => ⟨hkeys e he, hkeys' e he⟩) fun e he => ih e he (hvalues' e he)

/-- What follows from the properties of the parts, all parts have too. -/
theorem imp (hK : ∀ k, K k → L k) (hP : ∀ s, P s → Q s) (h : v.Every K P) : v.Every L Q := by
  induction h with
  | scalar h => exact .scalar (hP _ h)
  | list _ ih => exact .list ih
  | tuple _ ih => exact .tuple ih
  | map hkeys _ ih => exact .map (fun e he => hK _ (hkeys e he)) ih

end Value.Every

/-! ## Mappings -/

namespace Mapping

variable {K : Key → Prop} {P : Scalar → Prop} {m lower upper : Mapping} {k : Key} {v : Value}

theorem every_nil : (Value.map []).Every K P :=
  .map (List.forall_mem_nil _) (List.forall_mem_nil _)

theorem every_of_get? (hm : (Value.map m).Every K P) (h : m.get? k = some v) : v.Every K P := by
  obtain ⟨e, he, rfl⟩ := exists_mem_of_get? h
  exact (Value.Every.map_iff.1 hm).2 e he

/-- Putting an entry into a mapping brings in the parts of this entry and no others. -/
theorem every_put (hm : (Value.map m).Every K P) (hk : K k) (hv : v.Every K P) :
    (Value.map (m.put k v)).Every K P := by
  rw [Value.Every.map_iff] at hm
  refine .map (fun e he => ?_) fun e he => ?_
  -- An entry is an old one, the new one, or an old key with the new value.
  · rcases eq_of_mem_put he with he | rfl | ⟨f, hf, rfl⟩
    · exact hm.1 e he
    · exact hk
    · exact hm.1 f hf
  · rcases eq_of_mem_put he with he | rfl | ⟨f, -, rfl⟩
    · exact hm.2 e he
    · exact hv
    · exact hv

/-- So does putting in one entry after the other. -/
theorem every_putAll {pairs : List (Key × Value)} (hm : (Value.map m).Every K P)
    (hpairs : ∀ p ∈ pairs, K p.1 ∧ p.2.Every K P) : (Value.map (m.putAll pairs)).Every K P := by
  induction pairs generalizing m with
  | nil => exact hm
  | cons p pairs ih =>
    rw [List.forall_mem_cons] at hpairs
    exact ih (every_put hm hpairs.1.1 hpairs.1.2) hpairs.2

/-- In a value that is laid over another one are parts of these two only. -/
theorem every_mergeValue {w : Option Value} (hv : v.Every K P) (hw : ∀ u ∈ w, u.Every K P) :
    (mergeValue w v).Every K P := by
  induction v using Value.rec_on_parts generalizing w with
  | map es ih =>
    rcases w with - | w
    · rwa [mergeValue_none]
    rcases w.eq_map_or_entries?_eq_none with ⟨lower, rfl⟩ | h
    · -- The entries of the upper mapping are merged in one after the other.
      have hlower := hw _ rfl
      rw [← map_merge]
      clear hw
      induction es generalizing lower with
      | nil => rwa [merge_nil]
      | cons e es ihes =>
        obtain ⟨k, v⟩ := e
        obtain ⟨hkeys, hvalues⟩ := Value.Every.map_iff.1 hv
        rw [List.forall_mem_cons] at ih hkeys hvalues
        rw [merge]
        refine ihes ih.2 (.map hkeys.2 hvalues.2) _ (every_put hlower hkeys.1 ?_)
        exact ih.1 hvalues.1 fun u hu => every_of_get? hlower hu
    · rwa [mergeValue_map_of_entries?_eq_none h]
  | _ => rwa [mergeValue_of_entries?_eq_none rfl]

/-- In two layers, one over the other, are parts of these two only. -/
theorem every_merge (hlower : (Value.map lower).Every K P) (hupper : (Value.map upper).Every K P) :
    (Value.map (lower.merge upper)).Every K P := by
  rw [map_merge]
  exact every_mergeValue hupper fun u hu => Option.some.inj hu ▸ hlower

/-- What all layers have, they have on top of each other. -/
theorem every_mergeAll {layers : List Mapping} (h : ∀ l ∈ layers, (Value.map l).Every K P) :
    (Value.map (mergeAll layers)).Every K P := by
  have hfold (m : Mapping) (hm : (Value.map m).Every K P) :
      (Value.map (layers.foldl merge m)).Every K P := by
    induction layers generalizing m with
    | nil => exact hm
    | cons l layers ih =>
      rw [List.forall_mem_cons] at h
      exact ih h.2 _ (every_merge hm h.1)
  exact hfold [] every_nil

theorem every_below (hm : (Value.map m).Every K P) (s : String) :
    (Value.map (m.below s)).Every K P := by
  unfold below
  split
  · next sub hsub => exact every_of_get? hm hsub
  · exact every_nil

/-- A value that is put at a path comes with texts as the keys of new mappings, and with nothing else.
    -/
theorem every_setAt (hK : ∀ s, K (.str s)) (hm : (Value.map m).Every K P) (hv : v.Every K P)
    (s : String) (path : List String) : (Value.map (m.setAt s path v)).Every K P := by
  induction path generalizing m s with
  | nil => exact every_put hm (hK s) hv
  | cons t path ih => exact every_put hm (hK s) (ih (every_below hm s) t)

end Mapping

/-! ## Documents -/

namespace Yaml

variable {P : Scalar → Prop}

/-- All scalars in a tree have a property, except those in keys. -/
inductive Tree.Every (P : Scalar → Prop) : Tree → Prop
  | scalar {s : Scalar} : P s → Every P (.scalar s)
  | list {items : List Tree} : (∀ t ∈ items, Every P t) → Every P (.list items)
  | map {entries : List (Tree × Tree)} : (∀ e ∈ entries, Every P e.2) → Every P (.map entries)
  | fault (f : Failure) : Every P (.fault f)
  | brokenParts (f : Failure) : Every P (.brokenParts f)

/-- The scalars in the value of a tree are those of the tree, or null in place of a fault. -/
theorem Tree.Every.value (hnull : P .null) {t : Tree} (h : t.Every P) :
    t.value.Every (fun _ => True) P := by
  induction h with
  | scalar h => exact .scalar h
  | @list items h ih =>
    refine .list ?_
    clear h
    induction items with
    | nil => exact List.forall_mem_nil _
    | cons t items ihs =>
      rw [List.forall_mem_cons] at ih
      exact List.forall_mem_cons.2 ⟨ih.1, ihs ih.2⟩
  | @map entries h ih =>
    refine Mapping.every_putAll Mapping.every_nil ?_
    clear h
    induction entries with
    | nil => exact List.forall_mem_nil _
    | cons e entries ihs =>
      rw [List.forall_mem_cons] at ih
      exact List.forall_mem_cons.2 ⟨⟨trivial, ih.1⟩, ihs ih.2⟩
  | fault f => exact .scalar hnull
  | brokenParts f => exact .scalar hnull

/-- Where a tag does not fit its node there is a fault, and no scalar. -/
theorem Tag.every_misfit (t : Tag) : t.misfit.Every P := by
  unfold misfit
  split
  · exact .fault _
  split
  · exact .brokenParts _
  · exact .fault _

/-- All scalars that are read have a property. -/
def Reads (P : Scalar → Prop) : Prop := ∀ tag text s, readScalar tag text = .ok s → P s

theorem Node.every_scalarTree (h : Reads P) (tag : Tag) (text : CodeText) :
    (scalarTree tag text).Every P := by
  unfold scalarTree
  split
  · exact tag.every_misfit
  split
  · next s hs => exact .scalar (h _ _ _ hs)
  · exact .fault _

mutual

/-- The scalars in the tree of a node are read from the node. The entries that it takes over from
    other mappings are such too. -/
theorem Node.every_toTree (hread : Reads P) : ∀ n : Node, n.toTree.Every P
  | .scalar tag text => by
    rw [toTree]
    exact Node.every_scalarTree hread tag text
  | .sequence tag items => by
    rw [toTree]
    split
    · exact .list (Node.every_toTrees hread items)
    · exact tag.every_misfit
  | .mapping tag entries => by
    rw [toTree]
    split
    · split
      · next p hp => exact .map (Node.every_splitEntries hread entries p hp)
      · exact .brokenParts _
    · exact tag.every_misfit

theorem Node.every_toTrees (hread : Reads P) : ∀ ns : List Node, ∀ t ∈ Node.toTrees ns, t.Every P
  | [] => List.forall_mem_nil _
  | n :: ns => List.forall_mem_cons.2 ⟨Node.every_toTree hread n, Node.every_toTrees hread ns⟩

theorem Node.every_splitEntries (hread : Reads P) : ∀ es p, Node.splitEntries es = .ok p →
    ∀ e ∈ Node.allEntries p, e.2.Every P
  | [], p, h => by
    cases h
    exact List.forall_mem_nil _
  | (k, v) :: es, p, h => by
    rw [splitEntries] at h
    split at h
    -- The key of a merge: the entries of what it refers to come before those that are written out.
    · obtain ⟨merged, hmerged, h⟩ := exists_of_bind_eq_ok h
      obtain ⟨q, hq, h⟩ := exists_of_bind_eq_ok h
      cases h
      have hfirst := Node.every_mergedEntries hread v merged hmerged
      have hrest := Node.every_splitEntries hread es q hq
      rw [allEntries, List.append_assoc]
      exact List.forall_mem_append.2 ⟨hfirst, hrest⟩
    · obtain ⟨q, hq, h⟩ := exists_of_bind_eq_ok h
      cases h
      have hrest := Node.every_splitEntries hread es q hq
      have hvalue := Node.every_toTree hread v
      rw [allEntries, List.forall_mem_append] at hrest
      exact List.forall_mem_append.2 ⟨hrest.1, List.forall_mem_cons.2 ⟨hvalue, hrest.2⟩⟩

theorem Node.every_mergedEntries (hread : Reads P) : ∀ n es, Node.mergedEntries n = .ok es →
    ∀ e ∈ es, e.2.Every P
  | .scalar _ _, es, h => by
    rw [mergedEntries] at h
    cases h
  | .sequence _ items, es, h => by
    rw [mergedEntries] at h
    exact Node.every_mergedItems hread items es h
  | .mapping _ entries, es, h => by
    rw [mergedEntries] at h
    obtain ⟨p, hp, rfl⟩ := exists_of_map_eq_ok h
    exact Node.every_splitEntries hread entries p hp

theorem Node.every_mergedItems (hread : Reads P) : ∀ ns es, Node.mergedItems ns = .ok es →
    ∀ e ∈ es, e.2.Every P
  | [], es, h => by
    cases h
    exact List.forall_mem_nil _
  | .mapping _ entries :: items, es, h => by
    rw [mergedItems] at h
    obtain ⟨p, hp, h⟩ := exists_of_bind_eq_ok h
    obtain ⟨more, hmore, h⟩ := exists_of_bind_eq_ok h
    cases h
    exact List.forall_mem_append.2 ⟨Node.every_mergedItems hread items more hmore,
      Node.every_splitEntries hread entries p hp⟩
  | .scalar _ _ :: items, es, h => by
    rw [mergedItems] at h
    · cases h
    · exact nofun
  | .sequence _ _ :: items, es, h => by
    rw [mergedItems] at h
    · cases h
    · exact nofun

end

/-- The scalars of a document are what scalars are read as. -/
theorem every_of_read (hread : Reads P) (hnull : P .null) {text : String} {v : Value}
    (h : read text = .ok v) : v.Every (fun _ => True) P := by
  obtain ⟨node, -, h⟩ := exists_of_bind_eq_ok h
  cases node with
  | none =>
    cases h
    exact .scalar hnull
  | some n =>
    dsimp only at h
    split at h
    · cases h
    · cases h
      exact (Node.every_toTree hread n).value hnull

end Yaml

/-! ## Numbers -/

open Double

namespace Yaml

/-- A decimal number has 53 bits at most, as it is rounded. -/
theorem isProper_of_decimalFloat {cs : List Char} {x : Double} (h : decimalFloat cs = .ok x) :
    x.IsProper := by
  rw [decimalFloat] at h
  cases hd : Numeral.double? (Numeral.trimMargins cs) with
  | none => rw [hd] at h; cases h
  | some y =>
    rw [hd] at h
    cases h
    exact Numeral.isProper_of_double? hd

/-- A sum is rounded again after every summand. -/
theorem isProper_sumSixtieths {xs : List Double} (h : ∀ x ∈ xs, x.IsProper) {sum : Double}
    (hsum : sum.IsProper) (unit : Nat) : (sumSixtieths unit sum xs).IsProper := by
  induction xs generalizing sum unit with
  | nil => exact hsum
  | cons x xs ih =>
    rw [List.forall_mem_cons] at h
    exact ih h.2 (hsum.add (h.1.scale unit)) _

theorem isProper_of_unsignedFloat {cs : List Char} {x : Double} (h : unsignedFloat cs = .ok x) :
    x.IsProper := by
  unfold unsignedFloat at h
  split at h
  · cases h
    trivial
  split at h
  · cases h
    trivial
  split at h
  · obtain ⟨parts, hparts, h⟩ := exists_of_bind_eq_ok h
    cases h
    have hproper := forall_mem_of_mapM_eq_ok (fun _ _ => isProper_of_decimalFloat) hparts
    exact isProper_sumSixtieths (fun x hx => hproper x (List.mem_reverse.1 hx)) (isProper_zero _) 1
  · exact isProper_of_decimalFloat h

/-- All numbers in double precision that a document spells are rounded ones. -/
theorem isProper_of_float {cs : List Char} {x : Double} (h : float cs = .ok x) : x.IsProper := by
  obtain ⟨⟨negative, ds⟩, -, h⟩ := exists_of_bind_eq_ok h
  obtain ⟨y, hy, h⟩ := exists_of_bind_eq_ok h
  cases h
  have hproper := isProper_of_unsignedFloat hy
  split
  · exact hproper.neg
  · exact hproper

/-- So no scalar of a document has more than 53 bits. -/
theorem reads_isProper : Reads Scalar.IsProper := by
  intro tag text s h
  unfold readScalar at h
  split at h
  · cases h; trivial
  · split at h
    · cases h; trivial
    · cases h
  · obtain ⟨i, -, rfl⟩ := exists_of_map_eq_ok h
    trivial
  · obtain ⟨x, hx, rfl⟩ := exists_of_map_eq_ok h
    exact isProper_of_float hx
  · cases h
    exact Scalar.isProper_ofText text
  · split at h
    · next t ht =>
      split at h
      · next s' hs =>
        cases h
        obtain ⟨-, hs⟩ := Option.ite_none_right_eq_some.1 hs
        cases hs
        trivial
      · cases h
    · cases h
  · cases h

end Yaml

/-- In a value that is read from JSON all keys are texts, no integer has too many digits, and no other
    number has more bits than it may have. -/
theorem Json.every_of_read {cs : List Char} {v : Value} (h : read cs = .ok v) :
    v.Every (fun k => ∃ t, k = .ofText t) fun s => s.IsShort ∧ s.IsProper := by
  refine of_read_eq_ok (fun cs v r h => ?_) (fun vs => .list) (fun es hes => ?_) h
  · obtain ⟨c, rfl, hc⟩ := exists_of_readScalar? h
    exact .scalar hc
  · exact Mapping.every_putAll Mapping.every_nil hes

/-- The text of a variable is read as a scalar or as JSON, and so has no others. -/
theorem Coercion.every_of_read {s : String} {v : Value} (h : read s = .ok v) :
    v.Every (fun k => ∃ t, k = .ofText t) fun s => s.IsShort ∧ s.IsProper := by
  rcases scalar_or_json_of_read h with ⟨c, rfl, hc⟩ | h
  · exact .scalar hc
  · exact Json.every_of_read h

/-! ## Configurations -/

namespace Config

variable {files : Files} {env : Variable.Environment} {root : Place} {m config : Mapping}

/-- The numbers of a mapping have 53 bits at most. -/
abbrev IsProper (m : Mapping) : Prop := (Value.map m).Every (fun _ => True) Scalar.IsProper

theorem isProper_defaults : IsProper defaults := by
  simp [IsProper, defaults, Value.Every.map_iff, Value.Every.scalar_iff, Scalar.IsProper]

theorem isProper_of_readLayer {cwd : Place} {p : FilePath} (h : readLayer files cwd p = .ok m) :
    IsProper m := by
  obtain ⟨text, -, h⟩ := exists_of_bind_eq_ok h
  unfold layerOfText at h
  split at h
  · cases h
    exact Mapping.every_nil
  · next hread =>
    cases h
    exact Yaml.every_of_read Yaml.reads_isProper trivial hread
  · cases h
  · cases h
  · cases h

/-- The numbers of all layers together have 53 bits at most. -/
theorem isProper_of_merged (h : (merged files root).result = .ok m) : IsProper m := by
  rw [result_merged] at h
  obtain ⟨layers, hlayers, rfl⟩ := exists_of_map_eq_ok h
  exact Mapping.every_mergeAll (List.forall_mem_cons.2 ⟨isProper_defaults,
    forall_mem_of_mapM_eq_ok (fun _ _ => isProper_of_readLayer) hlayers⟩)

/-- All that a variable can do to a configuration, if it does not fail. -/
theorem addVariable_eq_ok {v : String × String} (h : (addVariable m v).result = .ok config) :
    config = m ∨ ∃ s path value, Coercion.read v.2 = .ok value ∧ config = m.setAt s path value := by
  by_cases ho : Variable.isOverride (Variable.rest v.1)
  · rw [addVariable, ho] at h
    cases hpath : Variable.path (Variable.rest v.1) with
    | error e =>
      rw [hpath] at h
      cases h
    | ok path =>
      rw [hpath] at h
      cases hread : Coercion.read v.2 with
      | error b =>
        rw [hread] at h
        cases h
      | ok value =>
        rw [hread] at h
        cases path with
        | nil => cases h
        | cons s path => exact .inr ⟨s, path, value, rfl, (Except.ok.inj h).symm⟩
  · rw [result_addVariable_of_not_isOverride ho] at h
    exact .inl (Except.ok.inj h).symm

theorem isProper_of_addVariable {v : String × String} (hm : IsProper m)
    (h : (addVariable m v).result = .ok config) : IsProper config := by
  rcases addVariable_eq_ok h with rfl | ⟨s, path, value, hread, rfl⟩
  · exact hm
  · have hvalue := (Coercion.every_of_read hread).imp (L := fun _ => True) (fun _ _ => trivial)
      fun _ => And.right
    exact Mapping.every_setAt (fun _ => trivial) hm hvalue s path

/-- Variables bring in numbers of 53 bits at most. -/
theorem isProper_of_overrideAll {vs : Variable.Environment} (hm : IsProper m)
    (h : overrideAll vs m = .ok config) : IsProper config := by
  induction vs generalizing m with
  | nil =>
    cases h
    exact hm
  | cons v vs ih =>
    rw [overrideAll, List.foldlM_cons] at h
    obtain ⟨m', hm', h⟩ := exists_of_bind_eq_ok h
    exact ih (isProper_of_addVariable hm hm') h

/-- The numbers of a configuration have 53 bits at most. -/
theorem isProper_of_compute {bundled : String} {validated : Bool}
    (h : (compute files env bundled root validated).result = .ok config) : IsProper config := by
  rw [result_compute] at h
  obtain ⟨m, hm, h⟩ := exists_of_bind_eq_ok h
  obtain ⟨m', hm', h⟩ := exists_of_bind_eq_ok h
  rw [result_override] at hm'
  have hproper := isProper_of_overrideAll (isProper_of_merged hm) hm'
  cases validated with
  | false =>
    cases h
    exact hproper
  | true =>
    obtain ⟨u, hvalid, h⟩ := exists_of_bind_eq_ok h
    cases h
    exact hproper

end Config

end Stencil
