import Stencil.Value.Basic

/-!
# Mappings

Look-up and update in mappings. An update keeps the key and the place of an entry that is
there already and puts a new entry at the end, so a mapping lists its entries in the order in
which their keys were first written.

* `get?_put_same`, `get?_put_of_not_same`: an update is seen at its own key and nowhere else;
* `get?_eq_none_iff`, `exists_mem_of_get?`: what is found is in the mapping;
* `get?_putAll`: in a list of pairs the last one of a key decides.
-/

namespace Stencil.Mapping

/-- The value under a key. -/
def get? : Mapping → Key → Option Value
  | [], _ => none
  | (k, v) :: m, l => if k.same l then some v else get? m l

/-- The value under a text. -/
def getStr? (m : Mapping) (s : String) : Option Value := get? m (.str s)

/-- The mapping with a value put under a key. -/
def put : Mapping → Key → Value → Mapping
  | [], l, w => [(l, w)]
  | (k, v) :: m, l, w => if k.same l then (k, w) :: m else (k, v) :: put m l w

/-- The mapping with a value put under a text. -/
def putStr (m : Mapping) (s : String) (v : Value) : Mapping := put m (.str s) v

/-- A mapping extended by pairs, one after the other. -/
def putAll (m : Mapping) (pairs : List (Key × Value)) : Mapping :=
  pairs.foldl (fun m e => put m e.1 e.2) m

/-- The mapping that a list of pairs describes. -/
def ofPairs (pairs : List (Key × Value)) : Mapping := putAll [] pairs

/-- Whether there is an entry under a key. -/
def has (m : Mapping) (k : Key) : Bool := (get? m k).isSome

/-- The keys, in order. -/
def keys (m : Mapping) : List Key := m.map (·.1)

@[simp]
theorem get?_nil (k : Key) : get? [] k = none := rfl

theorem get?_congr {k l : Key} (h : k.same l) (m : Mapping) : get? m k = get? m l := by
  simp only [Key.same, decide_eq_true_eq] at h
  induction m with
  | nil => rfl
  | cons e m ih => simp [get?, Key.same, h, ih]

theorem get?_put_same {k l : Key} (h : k.same l) (m : Mapping) (v : Value) :
    get? (put m k v) l = some v := by
  rw [Key.same_comm] at h
  rw [get?_congr h]
  induction m with
  | nil => simp [put, get?]
  | cons e m ih =>
    simp only [put]
    split
    · simp_all [get?]
    · simp_all [get?]

theorem get?_put_of_not_same {k l : Key} (h : ¬k.same l) (m : Mapping) (v : Value) :
    get? (put m k v) l = get? m l := by
  simp only [Key.same, decide_eq_true_eq] at h
  induction m with
  | nil => simp [put, get?, Key.same, h]
  | cons e m ih =>
    simp only [put]
    split
    · -- The entry that is replaced has the key of the update, not the one looked
      -- for.
      next he =>
      simp only [Key.same, decide_eq_true_eq] at he
      simp [get?, Key.same, he, h]
    · simp [get?, ih]

theorem get?_eq_none_iff {m : Mapping} {k : Key} : get? m k = none ↔ ∀ e ∈ m, ¬e.1.same k := by
  induction m with
  | nil => simp
  | cons e m ih =>
    rw [get?, List.forall_mem_cons]
    by_cases h : e.1.same k
    · simp [h]
    · simp [h, ih]

/-- What is found in a mapping is in it. -/
theorem exists_mem_of_get? {m : Mapping} {k : Key} {v : Value} (h : get? m k = some v) :
    ∃ e ∈ m, e.2 = v := by
  induction m with
  | nil => cases h
  | cons e m ih =>
    rw [get?] at h
    split at h
    · exact ⟨e, List.mem_cons_self, Option.some.inj h⟩
    · obtain ⟨f, hf, hv⟩ := ih h
      exact ⟨f, List.mem_cons_of_mem _ hf, hv⟩

/-- After an entry was put in, an entry is an old one, or the value is the new one, under the new key
    or an old one. -/
theorem eq_of_mem_put {m : Mapping} {k : Key} {v : Value} {e : Key × Value} (h : e ∈ put m k v) :
    e ∈ m ∨ e = (k, v) ∨ ∃ f ∈ m, e = (f.1, v) := by
  induction m with
  | nil => exact .inr (.inl (List.mem_singleton.1 h))
  | cons f m ih =>
    rw [put] at h
    split at h
    · rcases List.mem_cons.1 h with rfl | h
      · exact .inr (.inr ⟨f, List.mem_cons_self, rfl⟩)
      · exact .inl (List.mem_cons_of_mem _ h)
    · rcases List.mem_cons.1 h with rfl | h
      · exact .inl List.mem_cons_self
      · rcases ih h with he | he | ⟨g, hg, he⟩
        · exact .inl (List.mem_cons_of_mem _ he)
        · exact .inr (.inl he)
        · exact .inr (.inr ⟨g, List.mem_cons_of_mem _ hg, he⟩)

/-- Pairs win over what was in the mapping before them, and of the pairs of a key the last one
    decides. -/
theorem get?_putAll (m : Mapping) (pairs : List (Key × Value)) (k : Key) :
    get? (putAll m pairs) k =
      ((pairs.reverse.find? (·.1.same k)).map (·.2)).or (get? m k) := by
  induction pairs generalizing m with
  | nil => simp [putAll]
  | cons e pairs ih =>
    have hstep : putAll m (e :: pairs) = putAll (put m e.1 e.2) pairs := rfl
    rw [hstep, ih, List.reverse_cons, List.find?_append]
    cases hf : pairs.reverse.find? (·.1.same k) with
    | some x => simp
    | none =>
      by_cases h : e.1.same k
      · simp [h, get?_put_same h]
      · simp [h, get?_put_of_not_same h]

end Stencil.Mapping
