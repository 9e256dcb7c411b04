import Stencil.Proofs.DistinctKeys
import Stencil.Proofs.ToldFailures
import Stencil.Proofs.VariableFailures

/-!
# The last assignment decides

A name is bound by the last assignment to it, or else by the last entry of the file that is called so
and is not null. Entries are called by the texts of their keys, so entries with different keys may be
called alike. The first entry with a collection for a value is refused, before any assignment is looked
at, and then the first assignment without an equals sign is.

* `Assignment.split?_eq_some_iff`: how an assignment is read;
* `Bindings.IsStep`, `Bindings.IsStep.foldlM_of_isFirst`, `Bindings.IsStep.get?_of_isLast`: the
  first of several steps that is refused decides, or else the last one that binds a name;
* `Bindings.Refused`, `Bindings.Binds`: what is refused, and what a name is bound to;
* `CommandLine.RenderArguments.bindings_decided`: the bindings that a template is filled in with.
-/

namespace Stencil

/-! ## The first and the last -/

section FirstAndLast

variable {α : Type} {p : α → Prop} {xs : List α}

/-- An element is the first one of a list that a property holds of. -/
def IsFirst (p : α → Prop) (xs : List α) (x : α) : Prop :=
  ∃ before after, xs = before ++ x :: after ∧ p x ∧ ∀ y ∈ before, ¬p y

/-- An element is the last one of a list that a property holds of. -/
def IsLast (p : α → Prop) (xs : List α) (x : α) : Prop :=
  ∃ before after, xs = before ++ x :: after ∧ p x ∧ ∀ y ∈ after, ¬p y

/-- The first element is one of the list. -/
theorem IsFirst.mem {x : α} (h : IsFirst p xs x) : x ∈ xs := by
  obtain ⟨before, after, rfl, -, -⟩ := h
  exact List.mem_append_right _ List.mem_cons_self

theorem IsLast.prop {x : α} (h : IsLast p xs x) : p x := by
  obtain ⟨before, after, -, hx, -⟩ := h
  exact hx

theorem isFirst_iff_isLast_reverse {x : α} : IsFirst p xs x ↔ IsLast p xs.reverse x := by
  constructor
  · rintro ⟨before, after, rfl, hx, hbefore⟩
    exact ⟨after.reverse, before.reverse, by simp, hx, fun y hy => hbefore y (List.mem_reverse.1 hy)⟩
  · rintro ⟨before, after, h, hx, hafter⟩
    refine ⟨after.reverse, before.reverse, ?_, hx, fun y hy => hafter y (List.mem_reverse.1 hy)⟩
    rw [← List.reverse_reverse xs, h]
    simp

/-- There is a first element that a property holds of, or it holds of none. -/
theorem exists_isFirst_or (p : α → Prop) (xs : List α) :
    (∃ x, IsFirst p xs x) ∨ ∀ x ∈ xs, ¬p x := by
  classical
  cases hfind : xs.find? (p ·) with
  | none => exact .inr fun x hx => by simpa using List.find?_eq_none.1 hfind x hx
  | some x =>
    obtain ⟨hx, before, after, rfl, hbefore⟩ := List.find?_eq_some_iff_append.1 hfind
    exact .inl ⟨x, before, after, rfl, by simpa using hx, fun y hy => by simpa using hbefore y hy⟩

/-- There is a last element that a property holds of, or it holds of none. -/
theorem exists_isLast_or (p : α → Prop) (xs : List α) : (∃ x, IsLast p xs x) ∨ ∀ x ∈ xs, ¬p x := by
  rcases exists_isFirst_or p xs.reverse with ⟨x, hx⟩ | h
  · rw [isFirst_iff_isLast_reverse, List.reverse_reverse] at hx
    exact .inl ⟨x, hx⟩
  · exact .inr fun x hx => h x (List.mem_reverse.2 hx)

end FirstAndLast

/-! ## Assignments -/

namespace Assignment

/-- An assignment binds a name to a text: the first equals sign stands between them. -/
def Binds (item name value : String) : Prop :=
  '=' ∉ name.toList ∧ item.toList = name.toList ++ '=' :: value.toList

/-- An assignment has no equals sign. -/
def IsBroken (item : String) : Prop := '=' ∉ item.toList

variable {item name value : String} {m m' : Mapping}

/-- Every name is bound to something or to nothing. -/
theorem exists_binds (h : ¬IsBroken item) : ∃ name value, Binds item name value := by
  obtain ⟨name, value, hitem, hname⟩ := List.eq_append_cons_of_mem (not_not.1 h)
  refine ⟨String.ofList name, String.ofList value, ?_⟩
  rw [Binds, String.toList_ofList, String.toList_ofList]
  exact ⟨hname, hitem⟩

theorem split?_of_binds (h : Binds item name value) : split? item = some (name, value) := by
  rw [split?, h.2, splitChars?_append h.1, Option.map_some, String.ofList_toList,
    String.ofList_toList]

theorem splitChars?_eq_none {cs : List Char} (h : '=' ∉ cs) : splitChars? cs = none := by
  induction cs with
  | nil => rfl
  | cons c cs ih =>
    rw [List.mem_cons, not_or] at h
    simp [splitChars?, Ne.symm h.1, ih h.2]

theorem split?_of_isBroken (h : IsBroken item) : split? item = none := by
  rw [split?, splitChars?_eq_none h, Option.map_none]

end Assignment

/-! ## Steps -/

namespace Bindings

/-- What a step from bindings to bindings can do with an item, whatever was bound before: refuse it,
    bind one name to a text, or pass over it. -/
inductive IsStep {α ε : Type} (f : Mapping → α → Except ε Mapping) (bad : α → Prop) (error : α → ε)
    (binds : α → CodeText → CodeText → Prop) (x : α) : Prop
  | refuses (hbad : bad x) (hf : ∀ m, f m x = .error (error x))
  | puts (n v : CodeText) (hbad : ¬bad x) (hbinds : ∀ n' v', binds x n' v' ↔ n' = n ∧ v' = v)
      (hf : ∀ m, f m x = .ok (m.put (.ofText n) (.ofText v)))
  | passes (hbad : ¬bad x) (hbinds : ∀ n v, ¬binds x n v) (hf : ∀ m, f m x = .ok m)

namespace IsStep

variable {α ε : Type} {f : Mapping → α → Except ε Mapping} {bad : α → Prop} {error : α → ε}
  {binds : α → CodeText → CodeText → Prop} {x : α} {xs : List α} {m m' : Mapping}
  {n v : CodeText}

theorem eq_error (h : IsStep f bad error binds x) (hx : bad x) (m : Mapping) :
    f m x = .error (error x) := by
  cases h with
  | refuses _ hf => exact hf m
  | puts _ _ hbad => exact absurd hx hbad
  | passes hbad => exact absurd hx hbad

/-- A step that is not refused is taken. -/
theorem exists_ok (h : IsStep f bad error binds x) (hx : ¬bad x) (m : Mapping) :
    ∃ m', f m x = .ok m' := by
  cases h with
  | refuses hbad => exact absurd hbad hx
  | puts _ _ _ _ hf => exact ⟨_, hf m⟩
  | passes _ _ hf => exact ⟨_, hf m⟩

/-- A step that binds a name has it bound. -/
theorem bound (h : IsStep f bad error binds x) (hm : f m x = .ok m') (hv : binds x n v) :
    m'.get? (.ofText n) = some (.ofText v) := by
  cases h with
  | refuses _ hf => cases (hf m).symm.trans hm
  | puts _ _ _ hbinds hf =>
    obtain ⟨rfl, rfl⟩ := (hbinds n v).1 hv
    cases (hf m).symm.trans hm
    exact Mapping.get?_put_same (Key.same_self _) m _
  | passes _ hbinds => exact absurd hv (hbinds n v)

/-- A step that does not bind a name leaves it as it is. -/
theorem kept (h : IsStep f bad error binds x) (hm : f m x = .ok m') (hn : ∀ v, ¬binds x n v) :
    m'.get? (.ofText n) = m.get? (.ofText n) := by
  cases h with
  | refuses _ hf => cases (hf m).symm.trans hm
  | puts n' v' _ hbinds hf =>
    cases (hf m).symm.trans hm
    -- The step puts something under its own name, which is another one.
    have hne : n' ≠ n := fun he => hn v' ((hbinds n v').2 ⟨he.symm, rfl⟩)
    refine Mapping.get?_put_of_not_same (fun hsame => hne ?_) m _
    exact (Scalar.ofText_injective (Key.scalar.inj (Key.same_ofText_iff.1 hsame))).symm
  | passes _ _ hf =>
    cases (hf m).symm.trans hm
    rfl

/-! ### Several steps -/

variable (hf : ∀ x ∈ xs, IsStep f bad error binds x)

include hf

/-- Steps none of which is refused are all taken. -/
theorem exists_foldlM (h : ∀ x ∈ xs, ¬bad x) (m : Mapping) : ∃ m', xs.foldlM f m = .ok m' := by
  induction xs generalizing m with
  | nil => exact ⟨m, rfl⟩
  | cons x xs ih =>
    rw [List.forall_mem_cons] at hf h
    obtain ⟨m', hm'⟩ := hf.1.exists_ok h.1 m
    rw [List.foldlM_cons, hm']
    exact ih hf.2 h.2 m'

/-- The first step that is refused decides. -/
theorem foldlM_of_isFirst (hx : IsFirst bad xs x) (m : Mapping) :
    xs.foldlM f m = .error (error x) := by
  obtain ⟨before, after, rfl, hx, hbefore⟩ := hx
  rw [List.forall_mem_append, List.forall_mem_cons] at hf
  -- The steps before it are all taken, whatever they bind.
  obtain ⟨m', hm'⟩ := exists_foldlM hf.1 hbefore m
  have hrefused : (x :: after).foldlM f m' = .error (error x) := by
    rw [List.foldlM_cons, hf.2.1.eq_error hx]
    rfl
  rw [List.foldlM_append, hm']
  exact hrefused

/-- A name that no step binds stays as it is. -/
theorem get?_of_forall_not_binds (h : xs.foldlM f m = .ok m')
    (hn : ∀ x ∈ xs, ∀ v, ¬binds x n v) : m'.get? (.ofText n) = m.get? (.ofText n) := by
  induction xs generalizing m with
  | nil =>
    cases h
    rfl
  | cons x xs ih =>
    rw [List.forall_mem_cons] at hf hn
    rw [List.foldlM_cons] at h
    obtain ⟨m₁, hx, h⟩ := exists_of_bind_eq_ok h
    rw [ih hf.2 h hn.2, hf.1.kept hx hn.1]

/-- The last step that binds a name decides. -/
theorem get?_of_isLast (h : xs.foldlM f m = .ok m')
    (hx : IsLast (fun x => ∃ v, binds x n v) xs x) (hv : binds x n v) :
    m'.get? (.ofText n) = some (.ofText v) := by
  obtain ⟨before, after, rfl, -, hafter⟩ := hx
  rw [List.forall_mem_append, List.forall_mem_cons] at hf
  rw [List.foldlM_append] at h
  obtain ⟨m₁, -, h⟩ := exists_of_bind_eq_ok h
  rw [List.foldlM_cons] at h
  obtain ⟨m₂, hx, h⟩ := exists_of_bind_eq_ok h
  -- Nothing behind the last step changes what it has bound.
  rw [get?_of_forall_not_binds hf.2.2 h fun y hy v hb => hafter y hy ⟨v, hb⟩, hf.2.1.bound hx hv]

end IsStep

/-! ## Both kinds of steps -/

/-- A value is a list or a mapping. -/
def IsCollection (v : Value) : Prop := (∃ vs, v = .list vs) ∨ ∃ es, v = .map es

/-- An entry of a file binds the text of its key to the text of its value, if that is not null. -/
def Enters (e : Key × Value) (name value : CodeText) : Prop :=
  e.2 ≠ .null ∧ e.1.codeText? = some name ∧ e.2.codeText? = some value

/-- An assignment binds a name to a text, neither of which has surrogates. -/
def Assigns (item : String) (name value : CodeText) : Prop :=
  ∃ n v, name = .whole n ∧ value = .whole v ∧ Assignment.Binds item n v

/-- An entry as documents have them, whose integers can be written. -/
structure Writable (e : Key × Value) : Prop where
  scalar : ∃ s, e.1 = .scalar s
  notTuple (vs : List Value) : e.2 ≠ .tuple vs
  key (i : Int) : e.1 = .scalar (.int i) → i.natAbs < 10 ^ Numeral.maxDigits
  value (i : Int) : e.2 = .int i → i.natAbs < 10 ^ Numeral.maxDigits

theorem exists_text_scalar {s : Scalar} (h : ∀ i, s = .int i → i.natAbs < 10 ^ Numeral.maxDigits) :
    ∃ text, (Value.scalar s).codeText? = some text := by
  have hshort : (Value.scalar s).IsShort := .scalar (Scalar.isShort_iff.2 h)
  have htext := Value.isSome_text?_iff.2 (Value.isSome_literal?_iff.2 hshort)
  rw [Value.text?_eq_map_shown, Option.isSome_map] at htext
  exact Option.isSome_iff_exists.1 htext

/-- Every entry that can be written is called something. -/
theorem Writable.exists_name {e : Key × Value} (h : Writable e) :
    ∃ name, e.1.codeText? = some name ∧ e.1.text? = some name.shown := by
  obtain ⟨s, hs⟩ := h.scalar
  obtain ⟨name, hname⟩ : ∃ name, (Value.scalar s).codeText? = some name :=
    exists_text_scalar fun i hi => h.key i (hi ▸ hs)
  have htext := (Value.scalar s).text?_eq_map_shown
  rw [hname] at htext
  rw [hs]
  exact ⟨name, hname, htext⟩

/-- An assignment without an equals sign is refused, and any other one binds a name. -/
theorem isStep_bind (item : String) : IsStep Assignment.bindings.bind Assignment.IsBroken
    Error.badAssignment Assigns item := by
  by_cases h : Assignment.IsBroken item
  · refine .refuses h fun m => ?_
    rw [Assignment.bindings.bind, Assignment.split?_of_isBroken h]
  · obtain ⟨name, value, hbinds⟩ := Assignment.exists_binds h
    have hsplit := Assignment.split?_of_binds hbinds
    refine .puts (.whole name) (.whole value) h (fun n v => ⟨?_, ?_⟩) fun m => ?_
    · rintro ⟨n, v, rfl, rfl, hv⟩
      rw [Assignment.split?_of_binds hv] at hsplit
      cases hsplit
      exact ⟨rfl, rfl⟩
    · rintro ⟨rfl, rfl⟩
      exact ⟨name, value, rfl, rfl, hbinds⟩
    · rw [Assignment.bindings.bind, hsplit]
      rfl

theorem addEntry_scalar {path : String} {name value : CodeText} {k : Key} {s : Scalar}
    (hs : s ≠ .null) (hname : k.codeText? = some name)
    (hvalue : (Value.scalar s).codeText? = some value) (m : Mapping) :
    addEntry path m (k, .scalar s) = .ok (m.put (.ofText name) (.ofText value)) := by
  unfold addEntry
  split
  · next hnull => exact absurd (Value.scalar.inj hnull) hs
  · next heq =>
    cases heq
    rw [hvalue, hname]
    rfl
  · next hscalar => exact absurd rfl (hscalar s)

theorem addEntry_collection {path name : String} {e : Key × Value} (he : IsCollection e.2)
    (hname : e.1.text? = some name) (m : Mapping) :
    addEntry path m e = .error (.error (.bindingNotScalar path name)) := by
  obtain ⟨k, v⟩ := e
  rcases he with ⟨vs, rfl⟩ | ⟨es, rfl⟩ <;>
  · unfold addEntry
    rw [hname]
    rfl

/-- The name of an entry. -/
def nameOf (e : Key × Value) : String := e.1.text?.getD ""

/-- An entry with a collection is refused, one with null is passed over, and any other one binds the
    name that its key is written as. -/
theorem isStep_addEntry (path : String) {e : Key × Value} (he : Writable e) :
    IsStep (addEntry path) (fun e => IsCollection e.2)
      (fun e => .error (.bindingNotScalar path (nameOf e))) Enters e := by
  obtain ⟨name, hname, htext⟩ := he.exists_name
  have hnameOf : nameOf e = name.shown := by rw [nameOf, htext, Option.getD_some]
  obtain ⟨k, v⟩ := e
  cases v with
  | tuple vs => exact absurd rfl (he.notTuple vs)
  | list vs =>
    refine .refuses (.inl ⟨vs, rfl⟩) fun m => ?_
    rw [hnameOf, addEntry_collection (.inl ⟨vs, rfl⟩) htext]
  | map es =>
    refine .refuses (.inr ⟨es, rfl⟩) fun m => ?_
    rw [hnameOf, addEntry_collection (.inr ⟨es, rfl⟩) htext]
  | scalar s =>
    have hscalar : ¬IsCollection (.scalar s) := by rintro (⟨vs, h⟩ | ⟨es, h⟩) <;> cases h
    by_cases hs : s = .null
    · subst hs
      exact .passes hscalar (fun n v h => h.1 rfl) fun m => rfl
    · obtain ⟨value, hvalue⟩ := exists_text_scalar fun i hi => he.value i (congrArg _ hi)
      refine .puts name value hscalar (fun n v => ⟨?_, ?_⟩) (addEntry_scalar hs hname hvalue)
      · rintro ⟨-, hn, hv⟩
        exact ⟨Option.some.inj (hn.symm.trans hname), Option.some.inj (hv.symm.trans hvalue)⟩
      · rintro ⟨rfl, rfl⟩
        exact ⟨fun h => hs (Value.scalar.inj h), hname, hvalue⟩

end Bindings

/-! ## Documents -/

namespace Yaml

theorem Tree.shape_of_mem_pairs {ts : List (Tree × Tree)} :
    ∀ p ∈ Tree.value.pairs ts, (∃ s, p.1 = .scalar s) ∧ ∀ vs, p.2 ≠ .tuple vs := by
  induction ts with
  | nil => exact fun p hp => absurd hp List.not_mem_nil
  | cons t ts ih =>
    obtain ⟨k, v⟩ := t
    rw [Tree.value.pairs, List.forall_mem_cons]
    refine ⟨⟨?_, ?_⟩, ih⟩
    · cases k <;> exact ⟨_, rfl⟩
    · cases v <;> nofun

theorem shape_of_mem_putAll {pairs : List (Key × Value)} {m : Mapping}
    (hm : ∀ p ∈ m, (∃ s, p.1 = .scalar s) ∧ ∀ vs, p.2 ≠ .tuple vs)
    (hpairs : ∀ p ∈ pairs, (∃ s, p.1 = .scalar s) ∧ ∀ vs, p.2 ≠ .tuple vs) :
    ∀ p ∈ m.putAll pairs, (∃ s, p.1 = .scalar s) ∧ ∀ vs, p.2 ≠ .tuple vs := by
  induction pairs generalizing m with
  | nil => exact hm
  | cons q pairs ih =>
    rw [List.forall_mem_cons] at hpairs
    refine ih (fun p hp => ?_) hpairs.2
    rcases Mapping.eq_of_mem_put hp with hp | rfl | ⟨f, hf, rfl⟩
    · exact hm p hp
    · exact hpairs.1
    · exact ⟨(hm f hf).1, hpairs.1.2⟩

/-- The keys of a document that is a mapping are scalars, and no value of it is a tuple. -/
theorem shape_of_read {text : String} {m : Mapping} (h : read text = .ok (.map m)) :
    ∀ p ∈ m, (∃ s, p.1 = .scalar s) ∧ ∀ vs, p.2 ≠ .tuple vs := by
  obtain ⟨node, -, h⟩ := exists_of_bind_eq_ok h
  cases node with
  | none => cases h
  | some n =>
    dsimp only at h
    split at h
    · cases h
    · have hvalue : n.toTree.value = .map m := Except.ok.inj h
      cases ht : n.toTree with
      | map es =>
        rw [ht] at hvalue
        cases hvalue
        exact shape_of_mem_putAll (fun p hp => absurd hp List.not_mem_nil) Tree.shape_of_mem_pairs
      | _ =>
        rw [ht] at hvalue
        cases hvalue

end Yaml

/-! ## A file and assignments -/

namespace Bindings

/-- The entries that a file gives, if one is asked for: those of its mapping, or none if it is empty. -/
inductive Provides (files : Files) (cwd : Place) : Option String → Mapping → Prop
  | noPath : Provides files cwd none []
  | emptyPath : Provides files cwd (some "") []
  | empty {path text : String} (hpath : path ≠ "")
      (htext : files.readText cwd (.ofString path) = .ok text) (hread : Yaml.read text = .ok .null) :
      Provides files cwd (some path) []
  | mapping {path text : String} {entries : Mapping} (hpath : path ≠ "")
      (htext : files.readText cwd (.ofString path) = .ok text)
      (hread : Yaml.read text = .ok (.map entries)) : Provides files cwd (some path) entries

/-- What is refused: the first entry that has a list or a mapping, or else the first assignment that has
    no equals sign. -/
inductive Refused (path : Option String) (entries : Mapping) (items : List String) : Error → Prop
  | entry {p name : String} {e : Key × Value} (hpath : path = some p)
      (he : IsFirst (fun e => IsCollection e.2) entries e) (hname : e.1.text? = some name) :
      Refused path entries items (.bindingNotScalar p name)
  | item {item : String} (hentries : ∀ e ∈ entries, ¬IsCollection e.2)
      (hitem : IsFirst Assignment.IsBroken items item) :
      Refused path entries items (.badAssignment item)

namespace Refused

variable {path : Option String} {entries : Mapping} {items : List String} {e : Error}

/-- The caller has passed a bad value. -/
theorem category_eq (h : Refused path entries items e) : e.category = .invalidInput := by
  cases h <;> rfl

theorem simple (h : Refused path entries items e) : e.Simple := by
  cases h <;> exact trivial

end Refused

/-- What a name is bound to: the text of the last assignment to it, or else that of the last entry that
    is called so and is not null, or else nothing. -/
inductive Binds (entries : Mapping) (items : List String) (name : CodeText) :
    Option CodeText → Prop
  | assigned {item : String} {value : CodeText}
      (hlast : IsLast (fun i => ∃ v, Assigns i name v) items item)
      (hvalue : Assigns item name value) : Binds entries items name (some value)
  | entered {e : Key × Value} {value : CodeText}
      (hitems : ∀ i ∈ items, ∀ v, ¬Assigns i name v)
      (hlast : IsLast (fun e => ∃ v, Enters e name v) entries e) (hvalue : Enters e name value) :
      Binds entries items name (some value)
  | unbound (hitems : ∀ i ∈ items, ∀ v, ¬Assigns i name v)
      (hentries : ∀ e ∈ entries, ∀ v, ¬Enters e name v) : Binds entries items name none

variable {files : Files} {cwd : Place} {path : Option String} {entries : Mapping}
  {items : List String} {m : Mapping} {name : CodeText}

theorem Provides.load_eq (h : Provides files cwd path entries) :
    load files cwd path = ofEntries (path.getD "") entries := by
  cases h with
  | noPath => rfl
  | emptyPath => rfl
  | empty hpath htext hread =>
    unfold load
    split
    · next heq => cases heq
    · next heq => exact absurd (Option.some.inj heq) hpath
    · next heq =>
      cases heq
      rw [htext, Except.bind, ofText, hread]
      rfl
  | mapping hpath htext hread =>
    unfold load
    split
    · next heq => cases heq
    · next heq => exact absurd (Option.some.inj heq) hpath
    · next heq =>
      cases heq
      rw [htext, Except.bind, ofText, hread]
      rfl

/-- Where there are entries, there is a file. -/
theorem Provides.exists_path (h : Provides files cwd path entries) {e : Key × Value}
    (he : e ∈ entries) : ∃ p, path = some p := by
  cases h with
  | mapping => exact ⟨_, rfl⟩
  | _ => cases he

theorem Provides.writable (h : Provides files cwd path entries)
    (hints : ∀ e ∈ entries, (∀ i, e.1 = .scalar (.int i) → i.natAbs < 10 ^ Numeral.maxDigits) ∧
      ∀ i, e.2 = .int i → i.natAbs < 10 ^ Numeral.maxDigits) :
    ∀ e ∈ entries, Writable e := by
  intro e he
  cases h with
  | mapping _ _ hread =>
    obtain ⟨hkey, hvalue⟩ := Yaml.shape_of_read hread e he
    exact ⟨hkey, hvalue, (hints e he).1, (hints e he).2⟩
  | _ => cases he

theorem steps_entries (path : Option String) (hentries : ∀ e ∈ entries, Writable e) :
    ∀ e ∈ entries, IsStep (addEntry (path.getD "")) (fun e => IsCollection e.2)
      (fun e => .error (.bindingNotScalar (path.getD "") (nameOf e))) Enters e :=
  fun e he => isStep_addEntry _ (hentries e he)

section Collect

variable (hfile : Provides files cwd path entries) (hentries : ∀ e ∈ entries, Writable e)

include hfile hentries

/-- What is refused is reported, and then there are no bindings. -/
theorem Refused.collect_eq {e : Error} (h : Refused path entries items e) :
    collect files cwd path items = .error (.error e) := by
  have hsteps := steps_entries path hentries
  rw [collect, hfile.load_eq, ofEntries]
  cases h with
  | @entry p name e hpath he hname =>
    rw [IsStep.foldlM_of_isFirst hsteps he, nameOf, hname, hpath]
    rfl
  | item hnone hitem =>
    obtain ⟨m, hm⟩ := IsStep.exists_foldlM hsteps hnone []
    rw [hm]
    change (Assignment.bindings m items).mapError Fault.error = _
    rw [Assignment.bindings, IsStep.foldlM_of_isFirst (fun i _ => isStep_bind i) hitem]
    rfl

theorem refused_or (items : List String) : (∃ e, Refused path entries items e) ∨
    (∀ e ∈ entries, ¬IsCollection e.2) ∧ ∀ i ∈ items, ¬Assignment.IsBroken i := by
  rcases exists_isFirst_or (fun e : Key × Value => IsCollection e.2) entries with ⟨e, he⟩ | hnone
  · obtain ⟨p, hp⟩ := hfile.exists_path he.mem
    obtain ⟨name, -, hname⟩ := (hentries e he.mem).exists_name
    exact .inl ⟨_, .entry hp he hname⟩
  · rcases exists_isFirst_or Assignment.IsBroken items with ⟨i, hi⟩ | hall
    · exact .inl ⟨_, .item hnone hi⟩
    · exact .inr ⟨hnone, hall⟩

/-- There are bindings unless something is refused. -/
theorem collect_eq_error_iff {f : Fault} : collect files cwd path items = .error f ↔
    ∃ e, f = .error e ∧ Refused path entries items e := by
  constructor
  · intro h
    rcases refused_or hfile hentries items with ⟨e, he⟩ | ⟨hnone, hall⟩
    · exact ⟨e, Except.error.inj (h.symm.trans (he.collect_eq hfile hentries)), he⟩
    · obtain ⟨m, hm⟩ := IsStep.exists_foldlM (steps_entries path hentries) hnone []
      obtain ⟨m', hm'⟩ := IsStep.exists_foldlM (fun i _ => isStep_bind i) hall m
      rw [collect, hfile.load_eq, ofEntries, hm] at h
      change (Assignment.bindings m items).mapError Fault.error = _ at h
      rw [Assignment.bindings, hm'] at h
      cases h
  · rintro ⟨e, rfl, he⟩
    exact he.collect_eq hfile hentries

/-- What a name is bound to is found under it. -/
theorem Binds.get?_eq (hm : collect files cwd path items = .ok m) {r : Option CodeText}
    (h : Binds entries items name r) : m.get? (.ofText name) = r.map .ofText := by
  have hsteps := steps_entries path hentries
  have hitems : ∀ i ∈ items, IsStep Assignment.bindings.bind Assignment.IsBroken
    Error.badAssignment Assigns i := fun i _ => isStep_bind i
  obtain ⟨m₁, hload, hm⟩ := exists_of_bind_eq_ok hm
  rw [hfile.load_eq, ofEntries] at hload
  -- The assignments start from what the file has bound.
  have hbindings : items.foldlM Assignment.bindings.bind m₁ = .ok m := by
    change (items.foldlM Assignment.bindings.bind m₁).mapError Fault.error = .ok m at hm
    cases hfold : items.foldlM Assignment.bindings.bind m₁ with
    | error e =>
      rw [hfold] at hm
      cases hm
    | ok m' =>
      rw [hfold] at hm
      cases hm
      rfl
  cases h with
  | assigned hlast hvalue => exact IsStep.get?_of_isLast hitems hbindings hlast hvalue
  | entered hnone hlast hvalue =>
    -- No assignment touches the name, so the last entry of that name decides.
    rw [IsStep.get?_of_forall_not_binds hitems hbindings hnone]
    exact IsStep.get?_of_isLast hsteps hload hlast hvalue
  | unbound hnone hnone' =>
    rw [IsStep.get?_of_forall_not_binds hitems hbindings hnone,
      IsStep.get?_of_forall_not_binds hsteps hload hnone']
    rfl

end Collect

theorem exists_binds (entries : Mapping) (items : List String) (name : CodeText) :
    ∃ r, Binds entries items name r := by
  rcases exists_isLast_or (fun i => ∃ v, Assigns i name v) items with ⟨i, hi⟩ | hitems
  · obtain ⟨v, hv⟩ := hi.prop
    exact ⟨_, .assigned hi hv⟩
  · have hnone (i : String) (h : i ∈ items) (v : CodeText) (hv : Assigns i name v) : False :=
      hitems i h ⟨v, hv⟩
    rcases exists_isLast_or (fun e => ∃ v, Enters e name v) entries with ⟨e, he⟩ | hentries
    · obtain ⟨v, hv⟩ := he.prop
      exact ⟨_, .entered hnone he hv⟩
    · exact ⟨_, .unbound hnone fun e he v hv => hentries e he ⟨v, hv⟩⟩

end Bindings

/-! ## The command -/

namespace CommandLine.RenderArguments

/-- What is refused can be reported in either layout. -/
theorem exists_report_of_refused (a : RenderArguments) {path : Option String} {entries : Mapping}
    {items : List String} {e : Error} (he : Bindings.Refused path entries items e) :
    ∃ ending, a.report (.error e) = .ok ending := by
  cases hj : a.json with
  | false => exact ⟨_, a.report_of_told_of_not_json hj rfl⟩
  | true =>
    have hsimple : (Fault.error e).Simple := he.simple
    obtain ⟨t, ht, -⟩ := a.exists_report_of_json hj hsimple rfl
    exact ⟨_, ht⟩

/-- A run that finds its markers and its mode, with the entries of a file that is a mapping, or with
    none: unless something is refused, the template is filled in with bindings under which each name has
    what binds it. What is refused is reported as an invalid input, and then there are no bindings. -/
theorem bindings_decided (a : RenderArguments) (stdin : ByteArray) (w : Workspace) {markers : Markers}
    {strict : Bool} {entries : Mapping} (hmarkers : (a.markers w).2.result = .ok markers)
    (hstrict : (a.isStrict w).2.result = .ok strict)
    (hfile : Bindings.Provides w.files w.cwd a.bindings entries)
    (hints : ∀ e ∈ entries, (∀ i, e.1 = .scalar (.int i) → i.natAbs < 10 ^ Numeral.maxDigits) ∧
      ∀ i, e.2 = .int i → i.natAbs < 10 ^ Numeral.maxDigits) :
    (∀ f, Bindings.collect w.files w.cwd a.bindings a.assignments = .error f ↔
      ∃ e, f = .error e ∧ Bindings.Refused a.bindings entries a.assignments e) ∧
    (∀ e, Bindings.Refused a.bindings entries a.assignments e → e.category = .invalidInput ∧
      ∃ ending, (a.run stdin w).2.result = .ok ending ∧ ending.code = 1 ∧ ending.output.out = "" ∧
        (Fault.error e).Reports a.mode ending.output.err) ∧
    ∀ m, Bindings.collect w.files w.cwd a.bindings a.assignments = .ok m →
      (a.rendered stdin w).2.result = (a.templateIn stdin (w.view a.root) >>= fun text =>
        (Checked.runText ⟨text, markers, m, strict⟩).result) ∧
      ∀ name : CodeText, ∃ r : Option CodeText, m.get? (.ofText name) = r.map .ofText ∧
        ∀ r', Bindings.Binds entries a.assignments name r' ↔ r' = r := by
  have hwritable := hfile.writable hints
  -- With the markers and the mode at hand, the bindings are the first thing that can fail.
  have hbefore : (a.rendered stdin w).2.result =
      (Bindings.collect w.files w.cwd a.bindings a.assignments >>= fun m =>
        a.templateIn stdin (w.view a.root) >>= fun text =>
          (Checked.runText ⟨text, markers, m, strict⟩).result) := by
    rw [a.looksAt_markers.result] at hmarkers
    rw [a.looksAt_isStrict.result] at hstrict
    rw [(a.looksAt_rendered stdin).result]
    simp only [renderedIn, inputsIn, bind_assoc, pure_bind]
    rw [hmarkers, hstrict]
    rfl
  refine ⟨fun f => Bindings.collect_eq_error_iff hfile hwritable, fun e he => ?_, fun m hm => ?_⟩
  · have hcollect := he.collect_eq hfile hwritable
    have hattempt : (a.attempt stdin w).2.result = .error (.error e) := by
      rw [hcollect] at hbefore
      exact (Work.bind_of_error hbefore).2
    obtain ⟨ending, hending⟩ := exists_report_of_refused a he
    exact ⟨he.category_eq, ending, (run_of_error hattempt).2.trans hending, a.report_eq_ok hending⟩
  · rw [hm] at hbefore
    refine ⟨hbefore, fun name => ?_⟩
    obtain ⟨r, hr⟩ := Bindings.exists_binds entries a.assignments name
    have hget := hr.get?_eq hfile hwritable hm
    refine ⟨r, hget, fun r' => ⟨fun hr' => ?_, ?_⟩⟩
    -- What is found under the name is one thing, so only one thing can bind it.
    · have hmap := hget.symm.trans (hr'.get?_eq hfile hwritable hm)
      exact (Option.map_injective (fun _ _ h => Scalar.ofText_injective (Value.scalar.inj h)) hmap).symm
    · rintro rfl
      exact hr

/-- The numeral and the text `1` are called alike, and the later entry counts. The last assignment to a
    name counts, up to its end. A null binds nothing. -/
theorem bindings_of_file_and_assignments :
    let a : RenderArguments :=
      { start := some "*(", stop := some ")*", strict := some false, bindings := some "v",
        assignments := ["y=3", "y=4=5"] }
    let files : Files := ⟨[(["v"], .file "1: a\n'1': b\ny: 2\nz: ~\n".toUTF8 0)], 1⟩
    let w : Workspace := ⟨files, [], [], "", id, .empty⟩
    let entries : Mapping :=
      [(.scalar (.int 1), .str "a"), (.str "1", .str "b"), (.str "y", .int 2), (.str "z", .null)]
    Bindings.Provides w.files w.cwd a.bindings entries ∧
      Bindings.Binds entries a.assignments (.whole "1") (some (.whole "b")) ∧
      Bindings.Binds entries a.assignments (.whole "y") (some (.whole "4=5")) ∧
      Bindings.Binds entries a.assignments (.whole "z") none := by
  intro a files w entries
  let m : Mapping := [(.str "1", .str "b"), (.str "y", .str "4=5")]
  have hfile : Bindings.Provides w.files w.cwd a.bindings entries :=
    have htext : w.files.readText w.cwd (.ofString "v") = .ok "1: a\n'1': b\ny: 2\nz: ~\n" := by
      decide +kernel
    .mapping (by decide) htext (by decide +kernel)
  have hints : ∀ e ∈ entries, (∀ i, e.1 = .scalar (.int i) → i.natAbs < 10 ^ Numeral.maxDigits) ∧
      ∀ i, e.2 = .int i → i.natAbs < 10 ^ Numeral.maxDigits := by
    have hsmall (n : Nat) (h : n < 10) : n < 10 ^ Numeral.maxDigits :=
      Nat.lt_of_lt_of_le h (Nat.le_self_pow (by decide) 10)
    simp only [entries, List.forall_mem_cons]
    refine ⟨⟨?_, nofun⟩, ⟨nofun, nofun⟩, ⟨nofun, ?_⟩, ⟨nofun, nofun⟩, nofun⟩
    · rintro i ⟨⟩
      exact hsmall 1 (by decide)
    · rintro i ⟨⟩
      exact hsmall 2 (by decide)
  have hmarkers : (a.markers w).2.result = .ok ⟨"*(", ")*", by decide, by decide⟩ := rfl
  have hstrict : (a.isStrict w).2.result = .ok false := rfl
  obtain ⟨-, -, hnames⟩ := bindings_decided a .empty w hmarkers hstrict hfile hints
  have hm : Bindings.collect w.files w.cwd a.bindings a.assignments = .ok m := by decide +kernel
  have hbinds (name : CodeText) (r : Option CodeText) (hr : m.get? (.ofText name) = r.map .ofText) :
      Bindings.Binds entries a.assignments name r := by
    obtain ⟨r', hget, hunique⟩ := (hnames m hm).2 name
    rw [hunique]
    exact Option.map_injective (fun _ _ h => Scalar.ofText_injective (Value.scalar.inj h)) (hr.symm.trans hget)
  exact ⟨hfile, hbinds (.whole "1") (some (.whole "b")) rfl,
    hbinds (.whole "y") (some (.whole "4=5")) rfl, hbinds (.whole "z") none rfl⟩

end CommandLine.RenderArguments

end Stencil
