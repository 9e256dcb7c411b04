import Stencil.Proofs.Composition

/-!
# Texts that were cut off

A text that is cut off inside a placeholder, behind its start marker and before the end of its end
marker, is refused, and the placeholder is reported as never closed. All that comes before it is read
as in the whole text, and no marker appears in a beginning of a text that is not in the text itself.

* `Layout.StopsAt.of_append`, `Division.Lies.of_append`, `Opens.of_append`: what is read of a text that
  goes on behind it is read of the text alone;
* `Layout.HasBody.refused_of_append`: a placeholder that closes behind the cut is never closed;
* `run_take_eq_error`: a text that is filled in, cut off inside any of its placeholders.
-/

namespace Stencil

open Layout (Nested NestedAt StopsAt HasBody)

variable {m : Markers} {strict : Bool} {bindings : Mapping} {s t body : List Char} {a k p : Nat}

/-! ## Before the cut -/

/-- The first end marker of both texts is the first one of the text that it stands in. -/
theorem Layout.StopsAt.of_append (h : StopsAt m (s ++ t) a k)
    (hfit : k + m.stop.length ≤ s.length) : StopsAt m s a k := by
  rw [← String.length_toList] at hfit
  exact ⟨⟨h.le, (occursAt_append_of_le hfit).1 h.occursAt⟩,
    fun q ⟨ha, hq⟩ => h.2 ⟨ha, isPrefix_drop_append hq⟩⟩

/-- A placeholder that lies before the cut, with the literal before it, is read alike. -/
theorem Part.Lies.of_append {part : Part} (h : part.Lies m strict (s ++ t) a)
    (hfit : a + (part.written m).length ≤ s.length) : part.Lies m strict s a := by
  refine ⟨(occursAt_append_of_le hfit).1 h.begins, fun q ha hq ho => ?_, h.stops.of_append ?_,
    fun hs q ha hq ho => ?_⟩
  · exact h.literal q ha hq (isPrefix_drop_append ho)
  · rw [Division.length_part] at hfit
    omega
  · exact h.flat hs q ha hq (isPrefix_drop_append ho)

/-- What a scan reads of both texts, as far as the cut, is what it reads of the first one. -/
theorem Division.Lies.of_append {d : Division} (h : d.Lies m strict (s ++ t) a)
    (hfit : a + (d.written m).length ≤ s.length) : d.Lies m strict s a := by
  obtain ⟨ps, last⟩ := d
  induction ps generalizing a with
  | nil =>
    rw [lies_nil_iff] at h ⊢
    exact ⟨(occursAt_append_of_le hfit).1 h.1,
      fun q ha hq ho => h.2 q ha hq (isPrefix_drop_append ho)⟩
  | cons p ps ih =>
    rw [written_cons, List.length_append, ← Nat.add_assoc] at hfit
    rw [lies_cons_iff] at h ⊢
    exact ⟨h.1.of_append (by omega), ih h.2 hfit⟩

/-- A scan of both texts that gets to a placeholder which opens before the cut gets there in the first
    one. -/
theorem Opens.of_append (h : Opens m strict bindings (s ++ t) p)
    (hfit : p + m.start.length ≤ s.length) : Opens m strict bindings s p := by
  obtain ⟨d, hd, hv, rfl, ho⟩ := h
  rw [← String.length_toList] at hfit
  exact ⟨d, hd.of_append (by omega), hv, rfl, (occursAt_append_of_le hfit).1 ho⟩

/-! ## At the cut -/

/-- A placeholder that closes behind the cut is never closed in the first text, and in strict mode this
    is all that is wrong with it. -/
theorem Layout.HasBody.refused_of_append (hb : HasBody m strict (s ++ t) p body)
    (hcut : s.length < p + m.start.length + body.length + m.stop.length) :
    Refused m strict bindings s p (.unterminated p m.stop) := by
  refine .unterminated ?_ fun q hq ho => ?_
  · rintro ⟨hs, q, ⟨hq, ho, hfit, -⟩, -⟩
    -- An end marker would fit behind this start marker, so it begins in the body.
    exact (not_nested_iff hb.stops).1 hb.flat hs q hq (by omega) (isPrefix_drop_append ho)
  · have hlen := ho.add_length_le (stop_ne_nil m)
    have hle := hb.stops.2 ⟨hq, isPrefix_drop_append ho⟩
    rw [String.length_toList] at hlen
    omega

/-- A scan that gets to a placeholder with a body fails on a text that is cut off inside it, whether or
    not it would have filled in the whole text. -/
theorem scan_of_cut (hp : Opens m strict bindings (s ++ t) p)
    (hb : HasBody m strict (s ++ t) p body) (hfit : p + m.start.length ≤ s.length)
    (hcut : s.length < p + m.start.length + body.length + m.stop.length) :
    scan m strict bindings (String.ofList s) = .error (.error (.unterminated p m.stop)) := by
  rw [scan_eq_refused_iff, String.toList_ofList]
  exact ⟨p, hp.of_append hfit, hb.refused_of_append hcut⟩

/-! ## Texts that are filled in -/

/-- Every placeholder of a text that is filled in has a body. -/
theorem Opens.exists_hasBody {text out : String} (hp : Opens m strict bindings text.toList p)
    (h : scan m strict bindings text = .ok out) : ∃ body, HasBody m strict text.toList p body := by
  have hnot : ¬∃ f, Stuck m strict bindings text.toList p f := fun ⟨f, hf⟩ => by
    rw [scan_eq_error_iff.2 (scanCounting_of_stuck hp hf)] at h
    cases h
  rcases Layout.nested_or_stops_or_none m strict text.toList (p + m.start.length) with
    hn | ⟨hn, k, hk⟩ | hnone
  · exact absurd (exists_stuck (.inl hn)) hnot
  · exact hk.exists_hasBody hn
  · exact absurd (exists_stuck (.inr (.inl hnone))) hnot

/-- In a text that is filled in, every placeholder that the scan gets to closes. If the text is cut off
    anywhere behind its start marker and before the end of its end marker, the scan fails and reports
    the placeholder as never closed. -/
theorem run_take_eq_error {text out : String}
    (h : (Request.ofParts m strict bindings text).run.result = .ok out)
    (hp : Opens m strict bindings text.toList p) :
    ∃ k, StopsAt m text.toList (p + m.start.length) k ∧
      ∀ c, p + m.start.length ≤ c → c < k + m.stop.length →
        (Request.ofParts m strict bindings (String.ofList (text.toList.take c))).run.result =
          .error (.error (.unterminated p m.stop)) := by
  simp only [Request.result_run_ofParts] at h ⊢
  obtain ⟨body, hb⟩ := hp.exists_hasBody h
  refine ⟨_, hb.stops, fun c hfit hcut => ?_⟩
  have hlen := hb.stops.add_length_le
  have hc : (text.toList.take c).length = c := List.length_take_of_le (by omega)
  rw [← List.take_append_drop c text.toList] at hp hb
  exact scan_of_cut hp hb (by rwa [hc]) (by rwa [hc])

/-- A text with a start marker behind the cut, cut off within the end marker of its second
    placeholder. -/
theorem cut_end_marker_unterminated :
    let m : Markers := ⟨"*(", ")*", by decide, by decide⟩
    let bindings : Mapping := [(.str "a", .str "1"), (.str "b", .str "2")]
    let text := "*(a)* *(b)*(*(a)*"
    (Request.ofParts m true bindings text).run.result = .ok "1 2(1" ∧
      Opens m true bindings text.toList 6 ∧
      (Request.ofParts m true bindings "*(a)* *(b)").run.result =
        .error (.error (.unterminated 6 ")*")) := by
  intro m bindings text
  have hrun : (Request.ofParts m true bindings text).run.result = .ok "1 2(1" := by
    decide +kernel
  have hbegin : Opens m true bindings "*(a)* *(".toList 6 := by
    have hfail : scan m true bindings "*(a)* *(" = .error (.error (.unterminated 6 ")*")) := by
      decide +kernel
    obtain ⟨p, hp, hrefused⟩ := scan_eq_refused_iff.1 hfail
    cases hrefused
    exact hp
  have htext : text.toList = "*(a)* *(".toList ++ "b)*(*(a)*".toList := by decide
  have hp : Opens m true bindings text.toList 6 := htext ▸ hbegin.append (by decide)
  obtain ⟨k, hk, hcut⟩ := run_take_eq_error hrun hp
  have hstart : m.start.length = 2 := by decide
  have hstop : m.stop.length = 2 := by decide
  rw [hstart] at hk
  rw [hstart, hstop] at hcut
  have hne : k ≠ 8 := by
    rintro rfl
    exact absurd hk.occursAt (by decide)
  have hle := hk.le
  have htake : String.ofList (text.toList.take 10) = "*(a)* *(b)" := by decide
  have hten := hcut 10 (by omega) (by omega)
  rw [htake] at hten
  exact ⟨hrun, hp, hten⟩

end Stencil
