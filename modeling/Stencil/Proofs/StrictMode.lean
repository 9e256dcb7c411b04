import Stencil.Proofs.Failure

/-!
# Strict mode

Strict mode refuses a start marker inside an open placeholder and changes nothing else. What a scan
reads in strict mode, up to the placeholder that it fails at, is what it reads in lenient mode, so
the outcome is the same unless such a marker is reported.

* `Division.Lies.lenient`, `Opens.lenient`, `Stuck.lenient`: what is read in strict mode is read in
  lenient mode;
* `scan_eq_or_nested`: a scan gives what it gives in lenient mode, or it gets to a placeholder with a
  start marker inside;
* `run_strict_eq_or_nested`: the same for requests, and when the outcomes are bound to be the same.
-/

namespace Stencil

open Layout (Nested NestedAt StopsAt HasBody)

/-! ## From strict to lenient -/

variable {m : Markers} {strict : Bool} {bindings : Mapping} {text : List Char} {a p q : Nat}
  {f : Fault}

namespace Layout

/-- In lenient mode no start marker is refused. -/
theorem not_nested_lenient : ¬Nested m false text a := fun h => Bool.noConfusion h.1

theorem HasBody.lenient {body : List Char} (h : HasBody m strict text p body) :
    HasBody m false text p body :=
  ⟨not_nested_lenient, h.stops, h.isPrefix⟩

/-- An end marker that begins every start marker comes before any start marker. -/
theorem not_nestedAt_of_isPrefix (h : m.stop.toList <+: m.start.toList) : ¬NestedAt m text a q := by
  rintro ⟨⟨ha, ho, -, hstop⟩, -⟩
  exact hstop q ha le_rfl (h.trans ho)

end Layout

theorem Division.Lies.lenient {d : Division} (h : d.Lies m strict text a) :
    d.Lies m false text a :=
  ⟨h.begins, h.literal, h.stops, nofun⟩

/-- A placeholder that a scan gets to is one that it gets to in lenient mode. -/
theorem Opens.lenient (h : Opens m strict bindings text p) : Opens m false bindings text p := by
  obtain ⟨d, hd, hv, hp, ho⟩ := h
  exact ⟨d, hd.lenient, hv, hp, ho⟩

/-- A placeholder that makes a scan fail does so alike in lenient mode, unless it is refused for a
    start marker inside. -/
theorem Stuck.lenient (h : Stuck m strict bindings text p f) :
    Stuck m false bindings text p f ∨
      ∃ q, NestedAt m text (p + m.start.length) q ∧ f = .error (.nestedStart q m.start m.stop) := by
  rcases h with ⟨e, rfl, h⟩ | ⟨rfl, body, hb, hu⟩
  · cases h with
    | nested _ hq => exact .inr ⟨_, hq, rfl⟩
    | unterminated _ hstop =>
      exact .inl (.inl ⟨_, rfl, .unterminated Layout.not_nested_lenient hstop⟩)
    | missingDefault hb hp => exact .inl (.inl ⟨_, rfl, .missingDefault hb.lenient hp⟩)
    | unbound hb hq hu => exact .inl (.inl ⟨_, rfl, .unbound hb.lenient hq hu⟩)
  · exact .inl (.inr ⟨rfl, body, hb.lenient, hu⟩)

/-! ## Outcomes -/

/-- A scan gives what it gives in lenient mode, or it gets to a placeholder with a start marker
    inside. -/
theorem scan_eq_or_nested (m : Markers) (strict : Bool) (bindings : Mapping) (text : String) :
    scan m strict bindings text = scan m false bindings text ∨
      ∃ p q, Opens m strict bindings text.toList p ∧
        NestedAt m text.toList (p + m.start.length) q ∧
          scan m strict bindings text = .error (.error (.nestedStart q m.start m.stop)) := by
  cases hs : scan m strict bindings text with
  | ok out =>
    obtain ⟨n, hs⟩ := scan_eq_ok_iff.1 hs
    obtain ⟨d, hd, htext, values, hv, rfl, rfl⟩ := scanCounting_eq_ok_iff.1 hs
    have hl := scanCounting_of_lies hd.lenient htext hv
    exact .inl (scan_eq_ok_iff.2 ⟨_, hl⟩).symm
  | error f =>
    obtain ⟨p, hp, hf⟩ := scanCounting_eq_error_iff.1 (scan_eq_error_iff.1 hs)
    rcases hf.lenient with hl | ⟨q, hq, rfl⟩
    · exact .inl (scan_eq_error_iff.2 (scanCounting_of_stuck hp.lenient hl)).symm
    · exact .inr ⟨p, q, hp, hq, rfl⟩

/-- A start marker begins at `q` inside the placeholder that opens at `p`: behind its own start marker
    and, if the placeholder closes, before its end marker. -/
def StartsInside (m : Markers) (text : List Char) (p q : Nat) : Prop :=
  p + m.start.length ≤ q ∧ OccursAt m.start.toList text q ∧
    ∀ k, StopsAt m text (p + m.start.length) k → q < k

/-- A start marker that is refused begins inside the placeholder. -/
theorem StartsInside.of_nestedAt (h : NestedAt m text (p + m.start.length) q) :
    StartsInside m text p q := by
  obtain ⟨⟨ha, ho, -, hstop⟩, -⟩ := h
  refine ⟨ha, ho, fun k hk => ?_⟩
  by_contra hle
  exact hstop k hk.le (not_lt.1 hle) hk.occursAt

/-- Strict mode only refuses: the outcome is that of lenient mode, or a start marker inside a
    placeholder is reported. The outcomes are the same if no start marker begins inside a placeholder
    that the lenient scan gets to, and also if every start marker begins with an end marker. -/
theorem run_strict_eq_or_nested (m : Markers) (bindings : Mapping) (text : String) :
    let strict := (Request.ofParts m true bindings text).run.result
    let lenient := (Request.ofParts m false bindings text).run.result
    (strict = lenient ∨ ∃ q, strict = .error (.error (.nestedStart q m.start m.stop))) ∧
      ((∀ p q, Opens m false bindings text.toList p → ¬StartsInside m text.toList p q) →
        strict = lenient) ∧
      (m.stop.toList <+: m.start.toList → strict = lenient) := by
  simp only [Request.result_run_ofParts]
  rcases scan_eq_or_nested m true bindings text with h | ⟨p, q, hp, hq, h⟩
  · exact ⟨.inl h, fun _ => h, fun _ => h⟩
  · refine ⟨.inr ⟨q, h⟩, fun hfree => ?_, fun hpre => ?_⟩
    · exact absurd (.of_nestedAt hq) (hfree p q hp.lenient)
    · exact absurd hq (Layout.not_nestedAt_of_isPrefix hpre)

/-- A start marker inside a body is refused in strict mode alone. One that begins with the last
    character of an end marker is not inside, and one that is also the end marker closes a
    placeholder. -/
theorem nested_start_strict_alone :
    let m : Markers := ⟨"*(", ")*", by decide, by decide⟩
    let same : Markers := ⟨"%", "%", by decide, by decide⟩
    let bindings : Mapping := [(.str "a", .str "1"), (.str "a*(b", .str "2")]
    ((Request.ofParts m false bindings "*(a*(b)*").run.result = .ok "2" ∧
      (Request.ofParts m true bindings "*(a*(b)*").run.result =
        .error (.error (.nestedStart 3 "*(" ")*"))) ∧
    ((∀ p q, Opens m false bindings "*(a)*(".toList p → ¬StartsInside m "*(a)*(".toList p q) ∧
      (Request.ofParts m true bindings "*(a)*(").run.result = .ok "1(") ∧
    (Request.ofParts same true bindings "%a%%a%%").run.result =
      .error (.error (.unterminated 6 "%")) := by
  intro m same bindings
  have hnested : (Request.ofParts m true bindings "*(a*(b)*").run.result =
      .error (.error (.nestedStart 3 "*(" ")*")) := by decide +kernel
  have hlenient : (Request.ofParts m false bindings "*(a*(b)*").run.result = .ok "2" := by
    decide +kernel
  have hfree : ∀ p q, Opens m false bindings "*(a)*(".toList p →
      ¬StartsInside m "*(a)*(".toList p q := by
    rintro p q ⟨-, -, -, -, hp⟩ ⟨hpq, hq, hk⟩
    have hstart : m.start.length = 2 := by decide
    have hlength : "*(a)*(".toList.length = 6 := by decide
    have hocc : ∀ r < 6, OccursAt m.start.toList "*(a)*(".toList r → r = 0 ∨ r = 4 := by decide
    have hpos {r : Nat} (h : OccursAt m.start.toList "*(a)*(".toList r) : r = 0 ∨ r = 4 := by
      have hlen := h.add_length_le (Layout.start_ne_nil m)
      rw [String.length_toList] at hlen
      exact hocc r (by omega) h
    have hnone : ∀ r < 3, 2 ≤ r → ¬OccursAt m.stop.toList "*(a)*(".toList r := by decide
    rw [hstart] at hpq hk
    rcases hpos hp with rfl | rfl
    · have hq4 : q = 4 := by have := hpos hq; omega
      -- The placeholder closes before the second start marker.
      have := hk 3 ⟨by decide, fun r hr => not_lt.1 fun hlt => hnone r hlt hr.1 hr.2⟩
      omega
    · have := hpos hq
      omega
  refine ⟨⟨hlenient, hnested⟩, ⟨hfree, ?_⟩, ?_⟩
  · rw [(run_strict_eq_or_nested m bindings "*(a)*(").2.1 hfree]
    decide +kernel
  · rw [(run_strict_eq_or_nested same bindings "%a%%a%%").2.2 (by decide)]
    decide +kernel

end Stencil
