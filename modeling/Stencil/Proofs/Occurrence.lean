import Mathlib.Data.Nat.Find
import Mathlib.Order.Bounds.Basic
import Stencil.Scan.Layout

/-!
# Markers in a text

Where the markers of a placeholder stand in a text, by position, and what that says about the body
of an open placeholder. A body is looked for from a position `a` on. It ends at the first end marker
(`StopsAt`), unless in strict mode a start marker comes before (`NestedAt`).

* `OccursAt`: a marker stands at a position, as a whole;
* `cutBody_of_stopsAt`, `cutBody_of_nestedAt`, `cutBody_of_forall_not`: the three outcomes;
* `nested_or_stops_or_none`: one of the three is always the case.
-/

namespace Stencil

/-- A marker stands in a text at a position, as a whole. -/
def OccursAt (marker text : List Char) (p : Nat) : Prop := marker <+: text.drop p

instance (marker text : List Char) (p : Nat) : Decidable (OccursAt marker text p) :=
  inferInstanceAs (Decidable (marker <+: text.drop p))

namespace OccursAt

variable {marker text : List Char} {p : Nat}

/-- A marker that stands in a text ends there. -/
theorem add_length_le (h : OccursAt marker text p) (hm : marker ≠ []) :
    p + marker.length ≤ text.length := by
  have hle := h.length_le
  have hpos := List.length_pos_iff.2 hm
  rw [List.length_drop] at hle
  omega

/-- Behind a marker the text goes on. -/
theorem drop_eq (h : OccursAt marker text p) :
    text.drop p = marker ++ text.drop (p + marker.length) := by
  obtain ⟨rest, hrest⟩ := h
  rw [← List.drop_drop, ← hrest, List.drop_left]

end OccursAt

/-- A non-empty set of positions has a least one. -/
theorem exists_isLeast {P : Nat → Prop} (h : ∃ q, P q) : ∃ q, IsLeast {q | P q} q := by
  classical
  exact ⟨Nat.find h, Nat.find_spec h, fun _ hq => Nat.find_min' h hq⟩

/-! ## Readers of the front of a text -/

namespace Identifier

/-- What is left behind a front. -/
theorem dropFront?_eq_some_iff {front text rest : List Char} :
    dropFront? front text = some rest ↔ text = front ++ rest := by
  induction front generalizing text with
  | nil => simp [dropFront?]
  | cons f front ih =>
    cases text with
    | nil => simp [dropFront?]
    | cons c text =>
      by_cases hc : f = c
      · subst hc
        simp [dropFront?, ih]
      · simp [dropFront?, hc, Ne.symm hc]

/-- Nothing is left if the text does not start with the front. -/
theorem dropFront?_eq_none_iff {front text : List Char} :
    dropFront? front text = none ↔ ¬front <+: text := by
  rw [Option.eq_none_iff_forall_ne_some]
  constructor
  · rintro h ⟨rest, hrest⟩
    exact h rest (dropFront?_eq_some_iff.2 hrest.symm)
  · intro h rest hrest
    exact h ⟨rest, (dropFront?_eq_some_iff.1 hrest).symm⟩

end Identifier

namespace Layout

open Identifier (dropFront? dropFront?_eq_some_iff dropFront?_eq_none_iff)

/-- A marker fits into a text that is at least as long. -/
theorem fits_eq (marker text : List Char) : fits marker text = decide (marker.length ≤ text.length) := by
  induction marker generalizing text with
  | nil => simp [fits]
  | cons f marker ih =>
    cases text with
    | nil => simp [fits]
    | cons c text => simp [fits, ih]

/-! ## The end of a placeholder -/

variable (m : Markers) (strict : Bool) (text : List Char)

/-- The first end marker from `a` on stands at `k`. -/
def StopsAt (a k : Nat) : Prop := IsLeast {q | a ≤ q ∧ OccursAt m.stop.toList text q} k

/-- The first start marker from `a` on stands at `q`, where an end marker would still fit and with
    none from `a` up to there. -/
def NestedAt (a q : Nat) : Prop :=
  IsLeast {q | a ≤ q ∧ OccursAt m.start.toList text q ∧ q + m.stop.length ≤ text.length ∧
    ∀ r, a ≤ r → r ≤ q → ¬OccursAt m.stop.toList text r} q

/-- In strict mode, a start marker stands inside the placeholder whose body is looked for from `a`
    on. -/
def Nested (a : Nat) : Prop := strict = true ∧ ∃ q, NestedAt m text a q

/-- `body` is the body of the placeholder that opens at `p`: what stands there up to the first end
    marker, with nothing to refuse in it. -/
structure HasBody (p : Nat) (body : List Char) : Prop where
  flat : ¬Nested m strict text (p + m.start.length)
  stops : StopsAt m text (p + m.start.length) (p + m.start.length + body.length)
  isPrefix : body <+: text.drop (p + m.start.length)

variable {m strict text} {a k q opened : Nat}

theorem stop_ne_nil (m : Markers) : m.stop.toList ≠ [] := by simpa using m.stop_ne

theorem start_ne_nil (m : Markers) : m.start.toList ≠ [] := by simpa using m.start_ne

theorem stop_length_pos (m : Markers) : 0 < m.stop.length := by
  rw [← String.length_toList]
  exact List.length_pos_iff.2 (stop_ne_nil m)

theorem StopsAt.le (h : StopsAt m text a k) : a ≤ k := h.1.1

theorem StopsAt.occursAt (h : StopsAt m text a k) : OccursAt m.stop.toList text k := h.1.2

theorem StopsAt.not_occursAt (h : StopsAt m text a k) (ha : a ≤ q) (hk : q < k) :
    ¬OccursAt m.stop.toList text q := fun hq => absurd (h.2 ⟨ha, hq⟩) (not_le.2 hk)

/-- The end marker lies in the text. -/
theorem StopsAt.add_length_le (h : StopsAt m text a k) : k + m.stop.length ≤ text.length := by
  rw [← String.length_toList]
  exact h.occursAt.add_length_le (stop_ne_nil m)

/-- A body that holds no start marker before its end is not refused. -/
theorem not_nested_iff (h : StopsAt m text a k) :
    ¬Nested m strict text a ↔
      (strict = true → ∀ q, a ≤ q → q < k → ¬OccursAt m.start.toList text q) := by
  constructor
  · intro hn hs q ha hk hq
    -- The first start marker of the body would be one that is refused: an end
    -- marker fits, as one follows.
    have hex : ∃ q, a ≤ q ∧ OccursAt m.start.toList text q ∧ q + m.stop.length ≤ text.length ∧
        ∀ r, a ≤ r → r ≤ q → ¬OccursAt m.stop.toList text r := by
      refine ⟨q, ha, hq, ?_, fun r hr hrq => h.not_occursAt hr (by omega)⟩
      have := h.add_length_le
      omega
    exact hn ⟨hs, exists_isLeast hex⟩
  · rintro hf ⟨hs, q, ⟨ha, hq, -, hstop⟩, -⟩
    have hk : q < k := by
      by_contra hle
      exact hstop k h.le (not_lt.1 hle) h.occursAt
    exact hf hs q ha hk hq

/-- An open placeholder meets a start marker in strict mode, has an end marker, or has none. -/
theorem nested_or_stops_or_none (m : Markers) (strict : Bool) (text : List Char) (a : Nat) :
    Nested m strict text a ∨ (¬Nested m strict text a ∧ ∃ k, StopsAt m text a k) ∨
      (¬Nested m strict text a ∧ ∀ q, a ≤ q → ¬OccursAt m.stop.toList text q) := by
  by_cases hn : Nested m strict text a
  · exact .inl hn
  · by_cases hs : ∃ q, a ≤ q ∧ OccursAt m.stop.toList text q
    · exact .inr (.inl ⟨hn, exists_isLeast hs⟩)
    · exact .inr (.inr ⟨hn, fun q ha hq => hs ⟨q, ha, hq⟩⟩)

/-- Two beginnings of a text that are equally long are the same. -/
theorem eq_of_isPrefix {l l' : List Char} (h : l <+: text) (h' : l' <+: text)
    (hlen : l.length = l'.length) : l = l' := by
  rw [List.prefix_iff_eq_take.1 h, List.prefix_iff_eq_take.1 h', hlen]

/-- A placeholder has one body at most. -/
theorem HasBody.unique {p : Nat} {body body' : List Char} (h : HasBody m strict text p body)
    (h' : HasBody m strict text p body') : body = body' :=
  eq_of_isPrefix h.isPrefix h'.isPrefix (by have := h.stops.unique h'.stops; omega)

/-- A placeholder with a body lies in the text. -/
theorem HasBody.lt_length {p : Nat} {body : List Char} (h : HasBody m strict text p body) :
    p < text.length := by
  have hlen := h.stops.add_length_le
  have hpos := stop_length_pos m
  omega

/-- An open placeholder with an end marker has a body, if nothing in it is to be refused. -/
theorem StopsAt.exists_hasBody {p : Nat} (h : StopsAt m text (p + m.start.length) k)
    (hn : ¬Nested m strict text (p + m.start.length)) : ∃ body, HasBody m strict text p body := by
  refine ⟨(text.drop (p + m.start.length)).take (k - (p + m.start.length)), hn, ?_,
    List.take_prefix _ _⟩
  have hle := h.le
  have hlen := h.add_length_le
  rwa [List.length_take_of_le (by rw [List.length_drop]; omega), Nat.add_sub_cancel' hle]

/-! ## Cutting a body -/

theorem cutBody_of_occursAt (h : OccursAt m.stop.toList text a) :
    cutBody m strict opened a (text.drop a) = .ok ([], text.drop (a + m.stop.length)) := by
  have hd : dropFront? m.stop.toList (text.drop a) = some (text.drop (a + m.stop.length)) := by
    rw [dropFront?_eq_some_iff, ← String.length_toList]
    exact h.drop_eq
  unfold cutBody
  rw [hd]

theorem cutBody_of_not_fits (h : text.length < a + m.stop.length) :
    cutBody m strict opened a (text.drop a) = .error (.unterminated opened m.stop) := by
  have hlen := stop_length_pos m
  have hd : dropFront? m.stop.toList (text.drop a) = none := by
    rw [dropFront?_eq_none_iff]
    intro hp
    have := hp.length_le
    rw [String.length_toList, List.length_drop] at this
    omega
  have hf : fits m.stop.toList (text.drop a) = false := by
    rw [fits_eq, decide_eq_false_iff_not, String.length_toList, List.length_drop]
    omega
  unfold cutBody
  rw [hd]
  simp [hf]

theorem cutBody_of_start (hs : strict = true) (hstop : ¬OccursAt m.stop.toList text a)
    (hfit : a + m.stop.length ≤ text.length) (hstart : OccursAt m.start.toList text a) :
    cutBody m strict opened a (text.drop a) = .error (.nestedStart a m.start m.stop) := by
  have hd := dropFront?_eq_none_iff.2 hstop
  have hf : fits m.stop.toList (text.drop a) = true := by
    rw [fits_eq, decide_eq_true_iff, String.length_toList, List.length_drop]
    omega
  have hd' := dropFront?_eq_some_iff.2 hstart.drop_eq
  unfold cutBody
  rw [hd]
  simp [hf, hs, hd']

/-- A character that begins neither marker belongs to the body. -/
theorem cutBody_succ (hstop : ¬OccursAt m.stop.toList text a)
    (hfit : a + m.stop.length ≤ text.length)
    (hstart : strict = true → ¬OccursAt m.start.toList text a) (ha : a < text.length) :
    cutBody m strict opened a (text.drop a) =
      (cutBody m strict opened (a + 1) (text.drop (a + 1))).map fun p => (text[a] :: p.1, p.2) := by
  have hd := dropFront?_eq_none_iff.2 hstop
  have hf : fits m.stop.toList (text.drop a) = true := by
    rw [fits_eq, decide_eq_true_iff, String.length_toList, List.length_drop]
    omega
  have hs : (strict && (dropFront? m.start.toList (text.drop a)).isSome) = false := by
    cases strict with
    | false => rfl
    | true => simp [dropFront?_eq_none_iff.2 (hstart rfl)]
  have hc := List.drop_eq_getElem_cons ha
  conv => lhs; unfold cutBody
  rw [hd]
  simp only [hf, hs, Bool.not_true, Bool.false_eq_true, if_false]
  rw [hc]

/-- Up to the first end marker all is body. -/
theorem cutBody_of_stopsAt (h : StopsAt m text a k) (hn : ¬Nested m strict text a) :
    cutBody m strict opened a (text.drop a) =
      .ok ((text.drop a).take (k - a), text.drop (k + m.stop.length)) := by
  rw [not_nested_iff h] at hn
  obtain ⟨n, hk⟩ := Nat.exists_eq_add_of_le h.le
  induction n generalizing a with
  | zero =>
    obtain rfl : k = a := by omega
    rw [cutBody_of_occursAt h.occursAt]
    simp
  | succ n ih =>
    have hfit := h.add_length_le
    have hstep : StopsAt m text (a + 1) k :=
      ⟨⟨by omega, h.occursAt⟩, fun q hq => h.2 ⟨by have := hq.1; omega, hq.2⟩⟩
    rw [cutBody_succ (h.not_occursAt le_rfl (by omega)) (by omega)
      (fun hs => hn hs a le_rfl (by omega)) (by omega),
      ih hstep (fun hs q hq => hn hs q (by omega)) (by omega)]
    have hd : k - a = (k - (a + 1)) + 1 := by omega
    rw [List.drop_eq_getElem_cons (i := a) (by omega), hd, List.take_succ_cons]
    rfl

/-- The body of a placeholder is what is cut out. -/
theorem HasBody.cutBody_eq {p : Nat} {body : List Char} (h : HasBody m strict text p body) :
    cutBody m strict opened (p + m.start.length) (text.drop (p + m.start.length)) =
      .ok (body, text.drop (p + m.start.length + body.length + m.stop.length)) := by
  rw [cutBody_of_stopsAt h.stops h.flat, Nat.add_sub_cancel_left,
    ← List.prefix_iff_eq_take.1 h.isPrefix]

/-- In strict mode the first start marker inside is reported. -/
theorem cutBody_of_nestedAt (hs : strict = true) (h : NestedAt m text a q) :
    cutBody m strict opened a (text.drop a) = .error (.nestedStart q m.start m.stop) := by
  obtain ⟨n, hq⟩ := Nat.exists_eq_add_of_le h.1.1
  induction n generalizing a with
  | zero =>
    obtain rfl : q = a := by omega
    obtain ⟨-, hstart, hfit, hstop⟩ := h.1
    exact cutBody_of_start hs (hstop q le_rfl le_rfl) hfit hstart
  | succ n ih =>
    obtain ⟨⟨ha, hstart, hfit, hstop⟩, hmin⟩ := h
    have hlen := stop_length_pos m
    have hnot : ¬OccursAt m.start.toList text a := fun hsa => by
      have := hmin ⟨le_rfl, hsa, by omega, fun r hr hra => hstop r hr (by omega)⟩
      omega
    have hstep : NestedAt m text (a + 1) q := by
      refine ⟨⟨by omega, hstart, hfit, fun r hr => hstop r (by omega)⟩, fun r hr => ?_⟩
      obtain ⟨har, hsr, hfr, hnr⟩ := hr
      refine hmin ⟨by omega, hsr, hfr, fun t hat htr => ?_⟩
      rcases Nat.eq_or_lt_of_le hat with rfl | hlt
      · exact hstop a le_rfl ha
      · exact hnr t hlt htr
    rw [cutBody_succ (hstop a le_rfl ha) (by omega) (fun _ => hnot) (by omega),
      ih hstep (by omega)]
    rfl

/-- Without an end marker a placeholder is reported as never closed, at its start. -/
theorem cutBody_of_forall_not (hn : ¬Nested m strict text a)
    (h : ∀ q, a ≤ q → ¬OccursAt m.stop.toList text q) :
    cutBody m strict opened a (text.drop a) = .error (.unterminated opened m.stop) := by
  induction hd : text.length + 1 - a generalizing a with
  | zero => exact cutBody_of_not_fits (by omega)
  | succ n ih =>
    by_cases hfit : a + m.stop.length ≤ text.length
    · have hlen := stop_length_pos m
      have hnot : strict = true → ¬OccursAt m.start.toList text a := fun hs hsa =>
        hn ⟨hs, exists_isLeast ⟨a, le_rfl, hsa, hfit, fun r hr _ => h r hr⟩⟩
      have hn' : ¬Nested m strict text (a + 1) := by
        rintro ⟨hs, q, ⟨ha, hq, hf, -⟩, -⟩
        exact hn ⟨hs, exists_isLeast ⟨q, by omega, hq, hf, fun r hr _ => h r hr⟩⟩
      rw [cutBody_succ (h a le_rfl) hfit hnot (by omega),
        ih hn' (fun q hq => h q (by omega)) (by omega)]
      rfl
    · exact cutBody_of_not_fits (by omega)

end Layout

end Stencil
