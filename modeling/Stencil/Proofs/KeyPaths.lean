import Stencil.Proofs.Places
import Stencil.Value.Path

/-!
# Paths of keys

What stands at a path whose steps are keys of any kind, which every entry of nested mappings has, and
how it changes when a value is put at a path of texts.

* `Value.reach?`, `Value.at?_eq_reach?`: what stands at a path of keys, or of texts;
* `Path.Comparable`: one of two paths leads on from the other;
* `Mapping.hasAt_setAt`, `Mapping.reach?_setAt_of_not_comparable`: what stands at a path after a value
  was put at another one;
* `Path.ofDotted_intercalate`: a dotted name spells the path that it was made of.
-/

namespace Stencil

/-! ## Values at paths -/

namespace Value

/-- What a value has under a key; only a mapping has anything. -/
def under? (v : Value) (k : Key) : Option Value := v.entries?.bind (Mapping.get? · k)

/-- What stands at a path of keys, one key after the other. -/
def reach? (v : Value) (path : List Key) : Option Value := path.foldlM under? v

variable {v : Value} {p : List Key}

/-- A value is a mapping or has no entries. -/
theorem eq_map_or_entries?_eq_none (v : Value) : (∃ m, v = .map m) ∨ v.entries? = none := by
  cases v with
  | map m => exact .inl ⟨m, rfl⟩
  | _ => exact .inr rfl

@[simp]
theorem under?_map (m : Mapping) (k : Key) : (Value.map m).under? k = Mapping.get? m k := rfl

theorem under?_of_entries?_eq_none (h : v.entries? = none) (k : Key) : v.under? k = none := by
  rw [under?, h]
  rfl

@[simp]
theorem reach?_nil (v : Value) : v.reach? [] = some v := rfl

theorem reach?_cons (v : Value) (k : Key) (p : List Key) :
    v.reach? (k :: p) = (v.under? k).bind (·.reach? p) := rfl

/-- Going on from what stands at a path. -/
theorem reach?_append (v : Value) (p q : List Key) :
    v.reach? (p ++ q) = (v.reach? p).bind (·.reach? q) :=
  List.foldlM_append

theorem reach?_of_entries?_eq_none (h : v.entries? = none) (hp : p ≠ []) : v.reach? p = none := by
  obtain ⟨k, p, rfl⟩ := List.exists_cons_of_ne_nil hp
  rw [reach?_cons, under?_of_entries?_eq_none h]
  rfl

/-- What passes from a mapping to all that it has under its keys passes to all that stands in it. -/
theorem of_reach?_eq_some {P : Value → Prop} {x : Value}
    (hP : ∀ m k w, P (.map m) → Mapping.get? m k = some w → P w) (hv : P v)
    (h : v.reach? p = some x) : P x := by
  induction p generalizing v with
  | nil => exact Option.some.inj h ▸ hv
  | cons k p ih =>
    rw [reach?_cons, Option.bind_eq_some_iff] at h
    obtain ⟨w, hw, hx⟩ := h
    rcases v.eq_map_or_entries?_eq_none with ⟨m, rfl⟩ | hentries
    · exact ih (hP m k w hv hw) hx
    · rw [under?_of_entries?_eq_none hentries] at hw
      cases hw

/-- A path of texts is a path of keys. -/
theorem at?_eq_reach? (v : Value) (path : List String) : v.at? path = v.reach? (path.map .str) := by
  induction path generalizing v with
  | nil => cases v <;> rfl
  | cons s path ih =>
    cases v with
    | map m =>
      rw [at?, List.map_cons, reach?_cons, under?_map]
      exact congrArg _ (funext ih)
    | _ => rfl

end Value

/-! ## Comparable paths -/

/-- One of two paths leads on from the other, or they are the same. -/
def Path.Comparable {α : Type} (p q : List α) : Prop := p <+: q ∨ q <+: p

namespace Path

variable {α : Type} {p q : List α} {a : α}

instance [DecidableEq α] : Decidable (Comparable p q) :=
  inferInstanceAs (Decidable (p <+: q ∨ q <+: p))

theorem comparable_nil (p : List α) : Comparable p [] := .inr List.nil_prefix

theorem comparable_cons : Comparable (a :: p) (a :: q) ↔ Comparable p q := by
  simp [Comparable, List.cons_prefix_cons]

end Path

/-! ## Texts as keys -/

/-- A text is the same key as itself only. -/
theorem Key.same_ofText_iff {t : CodeText} {k : Key} : (Key.ofText t).same k ↔ k = .ofText t := by
  rw [Key.same, decide_eq_true_eq]
  constructor
  · intro h
    cases k with
    | tuple ks => cases t <;> simp [Key.canonical] at h
    | scalar c =>
      cases c with
      | float x =>
        cases hx : x.whole? <;> cases t <;>
          simp [Key.canonical, Scalar.canonical, Scalar.ofText, hx] at h
      | _ =>
        cases t <;> simp [Key.canonical, Scalar.canonical, Scalar.ofText] at h
        all_goals exact congrArg _ (congrArg _ h.symm)
  · rintro rfl
    rfl

theorem Key.same_str_iff {s : String} {k : Key} : (Key.str s).same k ↔ k = .str s :=
  Key.same_ofText_iff (t := .whole s)

namespace Mapping

variable {m : Mapping} {k : Key} {s : String} {path : List String} {p q : List Key} {v : Value}

theorem under?_putStr_self (m : Mapping) (s : String) (v : Value) :
    (Value.map (m.putStr s v)).under? (.str s) = some v :=
  getStr?_putStr_self m s v

theorem under?_putStr_of_ne (h : k ≠ .str s) (m : Mapping) (v : Value) :
    (Value.map (m.putStr s v)).under? k = (Value.map m).under? k :=
  get?_put_of_not_same (fun hs => h (Key.same_str_iff.1 hs)) m v

/-- What stands at a path that goes on is the same below a text as in the value there. -/
theorem reach?_below (m : Mapping) (s : String) (hp : p ≠ []) :
    (Value.map (m.below s)).reach? p = (Value.map m).reach? (.str s :: p) := by
  have hnone : (Value.map []).reach? p = none := by
    obtain ⟨k, p, rfl⟩ := List.exists_cons_of_ne_nil hp
    rfl
  rw [Value.reach?_cons, Value.under?_map, below, getStr?]
  cases h : m.get? (.str s) with
  | none => exact hnone
  | some v =>
    rcases v.eq_map_or_entries?_eq_none with ⟨sub, rfl⟩ | hv
    · rfl
    · rw [Option.bind_some, Value.reach?_of_entries?_eq_none hv hp]
      cases v with
      | map sub => cases hv
      | _ => exact hnone

/-! ## Putting a value at a path -/

/-- After the first step, a value is put into what stands there. -/
theorem reach?_setAt_cons (m : Mapping) (s t : String) (path : List String) (v : Value)
    (p : List Key) : (Value.map (m.setAt s (t :: path) v)).reach? (.str s :: p) =
      (Value.map ((m.below s).setAt t path v)).reach? p := by
  rw [Value.reach?_cons, setAt, under?_putStr_self]
  rfl

/-- A value is put under the first step only. -/
theorem reach?_setAt_of_ne (h : k ≠ .str s) (m : Mapping) (path : List String) (v : Value)
    (p : List Key) : (Value.map (m.setAt s path v)).reach? (k :: p) =
      (Value.map m).reach? (k :: p) := by
  rw [Value.reach?_cons, Value.reach?_cons]
  cases path with
  | nil => rw [setAt, under?_putStr_of_ne h]
  | cons t path => rw [setAt, under?_putStr_of_ne h]

/-- From where a value was put on, the paths are those of the value. -/
theorem reach?_setAt_append (m : Mapping) (s : String) (path : List String) (v : Value)
    (q : List Key) : (Value.map (m.setAt s path v)).reach? ((s :: path).map .str ++ q) =
      v.reach? q := by
  induction path generalizing m s with
  | nil =>
    rw [List.map_singleton, List.singleton_append, Value.reach?_cons, setAt, under?_putStr_self]
    rfl
  | cons t path ih =>
    rw [List.map_cons, List.cons_append, reach?_setAt_cons]
    exact ih _ _

/-- On the way to where a value was put there are mappings. -/
theorem reach?_setAt_of_prefix (hp : p <+: (s :: path).map .str) (hne : p ≠ (s :: path).map .str)
    (m : Mapping) (v : Value) :
    ∃ sub, (Value.map (m.setAt s path v)).reach? p = some (.map sub) := by
  induction path generalizing m s p with
  | nil =>
    rcases List.prefix_cons_iff.1 hp with rfl | ⟨q, rfl, hq⟩
    · exact ⟨_, rfl⟩
    · rw [List.map_nil, List.prefix_nil] at hq
      exact absurd (congrArg _ hq) hne
  | cons t path ih =>
    rcases List.prefix_cons_iff.1 hp with rfl | ⟨q, rfl, hq⟩
    · exact ⟨_, rfl⟩
    · rw [reach?_setAt_cons]
      exact ih hq (fun h => hne (congrArg _ h)) _

/-- Apart from the way to where a value was put, and from what follows there, everything stays. -/
theorem reach?_setAt_of_not_comparable (h : ¬Path.Comparable ((s :: path).map .str) p) (m : Mapping)
    (v : Value) : (Value.map (m.setAt s path v)).reach? p = (Value.map m).reach? p := by
  induction path generalizing m s p with
  | nil =>
    cases p with
    | nil => exact absurd (Path.comparable_nil _) h
    | cons k p =>
      refine reach?_setAt_of_ne (fun hk => h ?_) m [] v p
      rw [hk]
      exact Path.comparable_cons.2 (.inl List.nil_prefix)
  | cons t path ih =>
    cases p with
    | nil => exact absurd (Path.comparable_nil _) h
    | cons k p =>
      by_cases hk : k = .str s
      · subst hk
        rw [List.map_cons, Path.comparable_cons] at h
        rw [reach?_setAt_cons, ih h, reach?_below]
        rintro rfl
        exact h (Path.comparable_nil _)
      · exact reach?_setAt_of_ne hk m _ v p

/-- As far as a path is concerned, a value stands at another one: mappings are on the way to it, and
    nothing stands further on. -/
structure HasAt (m : Mapping) (path : List Key) (v : Value) (p : List Key) : Prop where
  here : p = path → (Value.map m).reach? p = some v
  above : p <+: path → p ≠ path → ∃ sub, (Value.map m).reach? p = some (.map sub)
  below : path <+: p → p ≠ path → (Value.map m).reach? p = none

theorem HasAt.congr {m' : Mapping} {path : List Key} (h : HasAt m path v p)
    (hreach : (Value.map m').reach? p = (Value.map m).reach? p) : HasAt m' path v p where
  here hp := hreach.trans (h.here hp)
  above hp hne := hreach ▸ h.above hp hne
  below hp hne := hreach.trans (h.below hp hne)

/-- A value that is no mapping stands where it was put. -/
theorem hasAt_setAt (hv : v.entries? = none) (m : Mapping) (s : String) (path : List String)
    (p : List Key) : HasAt (m.setAt s path v) ((s :: path).map .str) v p where
  here hp := by
    have hreach := reach?_setAt_append m s path v []
    rwa [List.append_nil, ← hp] at hreach
  above hp hne := reach?_setAt_of_prefix hp hne m v
  below hp hne := by
    obtain ⟨q, rfl⟩ := hp
    rw [reach?_setAt_append]
    exact Value.reach?_of_entries?_eq_none hv fun hq => hne (by rw [hq, List.append_nil])

end Mapping

/-! ## Dotted names -/

/-- A dotted name spells the path that it was made of, if no step of it has a point. -/
theorem Path.ofDotted_intercalate {path : List String} (hne : path ≠ [])
    (h : ∀ s ∈ path, '.' ∉ s.toList) : ofDotted (".".intercalate path) = path := by
  have hpieces : Text.pieces '.' (".".intercalate path).toList = path.map String.toList := by
    rw [String.toList_intercalate, show ".".toList = ['.'] from rfl, ← Text.join_eq_intercalate]
    refine Text.pieces_join (by simpa using hne) ?_
    simpa using h
  rw [ofDotted, hpieces, List.map_map]
  simp [Function.comp_def]

end Stencil
