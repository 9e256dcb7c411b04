import Stencil.Proofs.MergeAlgebra

/-!
# Two values put at paths

A value that is put at a path replaces what is in the way, so a second one may undo all that the first
one did, or meet what it left behind. If the second path leads to the first one, nothing of the first
value can be told afterwards; if neither path leads to the other, the order does not matter.

* `Value.Reordered`: values are the same but for the order of entries;
* `Mapping.setAt_eq_putStr`: putting a value at a path changes the entry under the first key;
* `Mapping.setAt_setAt_above`: a second value at the same path, or on the way to it;
* `Mapping.reordered_setAt_setAt`: two values at paths that are not comparable;
* `Mapping.setPath_laws`: all laws together.
-/

namespace Stencil

/-- Values are the same but for the order of entries: at every path the same stands in both, or there is
    a mapping in both, with the same keys. -/
def Value.Reordered (v w : Value) : Prop :=
  ∀ p, v.reach? p = w.reach? p ∨
    ∃ m n, v.reach? p = some (.map m) ∧ w.reach? p = some (.map n) ∧
      (Mapping.keys m).Perm (Mapping.keys n)

namespace Mapping

variable {m : Mapping} {k l : Key} {s t : String} {path path' : List String} {v w : Value}

/-! ## Two entries -/

/-- Of two values under the same key the second one counts. -/
theorem put_put_self (m : Mapping) (k : Key) (v w : Value) : (m.put k v).put k w = m.put k w := by
  induction m with
  | nil =>
    rw [put, put, put, if_pos (Key.same_self k)]
  | cons e m ih =>
    rw [put, put]
    split
    · next h => rw [put, if_pos h]
    · next h => rw [put, if_neg h, ih]

/-- Entries under two keys may come in any order. -/
theorem keys_put_put (h : ¬k.same l) (m : Mapping) (v w : Value) :
    (keys ((m.put k v).put l w)).Perm (keys ((m.put l w).put k v)) := by
  simp only [keys_put, has_put, Key.same_comm l k, Bool.eq_false_iff.2 h, Bool.false_or]
  cases has m k with
  | true => exact .refl _
  | false =>
    cases has m l with
    | true => exact .refl _
    | false =>
      simp only [Bool.false_eq_true, if_false, List.append_assoc]
      exact .append_left _ (.swap _ _ _)

theorem reordered_putStr_putStr (h : s ≠ t) (m : Mapping) (v w : Value) :
    (Value.map ((m.putStr s v).putStr t w)).Reordered (.map ((m.putStr t w).putStr s v)) := by
  intro p
  cases p with
  | nil => exact .inr ⟨_, _, rfl, rfl, keys_put_put (by simpa using h) m v w⟩
  | cons k p =>
    left
    rw [Value.reach?_cons, Value.reach?_cons]
    by_cases hs : k = .str s
    · subst hs
      rw [under?_putStr_of_ne (by simpa using h), under?_putStr_self, under?_putStr_self]
    · by_cases ht : k = .str t
      · subst ht
        rw [under?_putStr_of_ne hs, under?_putStr_self, under?_putStr_self]
      · simp only [under?_putStr_of_ne hs, under?_putStr_of_ne ht]

/-- Values that are the same but for the order of entries may be put under a key. -/
theorem reordered_putStr (h : v.Reordered w) (m : Mapping) (s : String) :
    (Value.map (m.putStr s v)).Reordered (.map (m.putStr s w)) := by
  intro p
  cases p with
  | nil => exact .inr ⟨_, _, rfl, rfl, by rw [putStr, putStr, keys_put, keys_put]⟩
  | cons k p =>
    rw [Value.reach?_cons, Value.reach?_cons]
    by_cases hs : k = .str s
    · subst hs
      rw [under?_putStr_self, under?_putStr_self]
      exact h p
    · rw [under?_putStr_of_ne hs, under?_putStr_of_ne hs]
      exact .inl rfl

/-! ## Two paths -/

/-- What stands under the first key of a path after a value was put there, where `sub` is the mapping
    that stood there before. -/
def written (sub : Mapping) : (path : List String) → (v : Value) → Value
  | [], v => v
  | t :: path, v => .map (sub.setAt t path v)

/-- A value that is put at a path changes the entry under the first key, and this entry depends on what
    stood there only. -/
theorem setAt_eq_putStr (m : Mapping) (s : String) (path : List String) (v : Value) :
    m.setAt s path v = m.putStr s (written (m.below s) path v) := by
  cases path <;> rfl

theorem below_putStr_self (m : Mapping) (s : String) (sub : Mapping) :
    (m.putStr s (.map sub)).below s = sub := by
  rw [below, getStr?_putStr_self]

theorem below_putStr_of_ne (h : s ≠ t) (m : Mapping) (v : Value) :
    (m.putStr s v).below t = m.below t := by
  rw [below, getStr?_putStr_of_ne h, below]

/-- A second value at the same path, or on the way to it, leaves nothing of the first one. -/
theorem setAt_setAt_above (h : path' <+: path) (m : Mapping) (s : String) (v w : Value) :
    (m.setAt s path v).setAt s path' w = m.setAt s path' w := by
  induction path' generalizing m s path with
  | nil => rw [setAt_eq_putStr m, setAt, putStr, putStr, put_put_self, setAt, putStr]
  | cons t path' ih =>
    obtain ⟨rest, rfl⟩ := h
    rw [List.cons_append, setAt, setAt, below_putStr_self, ih (List.prefix_append _ _), putStr, putStr,
      put_put_self, setAt, putStr]

theorem reordered_setAt_setAt_of_ne (h : s ≠ t) (m : Mapping) (path path' : List String)
    (v w : Value) : (Value.map ((m.setAt s path v).setAt t path' w)).Reordered
      (.map ((m.setAt t path' w).setAt s path v)) := by
  rw [setAt_eq_putStr m s, setAt_eq_putStr _ t, setAt_eq_putStr m t, setAt_eq_putStr _ s,
    below_putStr_of_ne h, below_putStr_of_ne (Ne.symm h)]
  exact reordered_putStr_putStr h m _ _

/-- Values at paths that are not comparable may be put there in any order. -/
theorem reordered_setAt_setAt (h : ¬Path.Comparable (s :: path) (t :: path')) (m : Mapping)
    (v w : Value) : (Value.map ((m.setAt s path v).setAt t path' w)).Reordered
      (.map ((m.setAt t path' w).setAt s path v)) := by
  by_cases hst : s = t
  · -- The paths part further on, in the mapping that both of them go through.
    subst hst
    rw [Path.comparable_cons] at h
    induction path generalizing m s path' with
    | nil => exact absurd (.inl List.nil_prefix) h
    | cons a path ih =>
      cases path' with
      | nil => exact absurd (Path.comparable_nil _) h
      | cons b path' =>
        rw [setAt, setAt, setAt, setAt, below_putStr_self, below_putStr_self, putStr, putStr, putStr,
          putStr, put_put_self, put_put_self]
        refine reordered_putStr ?_ m s
        by_cases hab : a = b
        · subst hab
          exact ih _ (mt Path.comparable_cons.2 h)
        · exact reordered_setAt_setAt_of_ne hab _ path path' v w
  · exact reordered_setAt_setAt_of_ne hst m path path' v w

/-! ## Laws -/

/-- A value is found at the path where it was put. Everything at paths that are not comparable with that
    one stays as it was, and on the way there are mappings. A second value at the same path, or on the
    way to it, comes to the same as without the first one. Two values at paths that are not comparable
    may be put there in any order, up to the order of entries. -/
theorem setPath_laws (m : Mapping) (hpath : path ≠ []) (v : Value) :
    ∃ m', m.setPath path v = .ok m' ∧
      (Value.map m').at? path = some v ∧
      (∀ p : List Key, ¬Path.Comparable (path.map .str) p →
        (Value.map m').reach? p = (Value.map m).reach? p) ∧
      (∀ above, above <+: path → above ≠ path →
        ∃ sub, (Value.map m').at? above = some (.map sub)) ∧
      (∀ above w, above ≠ [] → above <+: path → m'.setPath above w = m.setPath above w) ∧
      ∀ other w, ¬Path.Comparable path other → ∃ n a b, m.setPath other w = .ok n ∧
        m'.setPath other w = .ok a ∧ n.setPath path v = .ok b ∧
        (Value.map a).Reordered (.map b) := by
  obtain ⟨s, path, rfl⟩ := List.exists_cons_of_ne_nil hpath
  refine ⟨m.setAt s path v, rfl, at?_setAt_self m s path v,
    fun p hp => reach?_setAt_of_not_comparable hp m v, fun above habove hne => ?_,
    fun above w hnil habove => ?_, fun other w hother => ?_⟩
  · rw [Value.at?_eq_reach?]
    exact reach?_setAt_of_prefix (habove.map _)
      (fun heq => hne (List.map_injective_iff.2 (fun _ _ => by simp) heq)) m v
  · obtain ⟨t, above, rfl⟩ := List.exists_cons_of_ne_nil hnil
    obtain ⟨rfl, hrest⟩ := List.cons_prefix_cons.1 habove
    exact congrArg Except.ok (setAt_setAt_above hrest m t v w)
  · cases other with
    | nil => exact absurd (Path.comparable_nil _) hother
    | cons t other =>
      exact ⟨_, _, _, rfl, rfl, rfl, reordered_setAt_setAt hother m v w⟩

/-- Both paths lead through a text, which gives way to the first value that comes. -/
theorem setPath_laws_through_text :
    let m : Mapping := [(.str "a", .str "x"), (.str "b", .int 1)]
    let path := ["a", "c", "d"]
    path ≠ [] ∧ ¬Path.Comparable path ["a", "b"] ∧ ∃ m' n a b,
      m.setPath path (.int 2) = .ok m' ∧ m.setPath ["a", "b"] .null = .ok n ∧
        (Value.map m').at? ["a"] = some (.map [(.str "c", .map [(.str "d", .int 2)])]) ∧
        m'.setPath ["a"] (.int 3) = .ok [(.str "a", .int 3), (.str "b", .int 1)] ∧
        m'.setPath ["a", "b"] .null = .ok a ∧ n.setPath path (.int 2) = .ok b ∧
        (Value.map a).Reordered (.map b) ∧ a ≠ b := by
  intro m path
  have hpath : path ≠ [] := List.cons_ne_nil _ _
  have hother : ¬Path.Comparable path ["a", "b"] := by decide
  obtain ⟨m', hm', -, -, -, habove, hlaws⟩ := setPath_laws m hpath (.int 2)
  obtain ⟨n, a, b, hn, ha, hb, hab⟩ := hlaws ["a", "b"] .null hother
  refine ⟨hpath, hother, m', n, a, b, hm', hn, ?_, ?_, ha, hb, hab, ?_⟩
  · cases hm'
    decide
  · rw [habove ["a"] (.int 3) (List.cons_ne_nil _ _) (by decide)]
    rfl
  · cases hm'
    cases hn
    cases ha
    cases hb
    decide

end Mapping

end Stencil
