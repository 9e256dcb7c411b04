import Stencil.Proofs.BodyGrammar

/-!
# Defaults and end markers

A body ends at the first end marker, so no end marker stands in it, and none goes over its end from
within. Its default is the body less the stars that escape quotes. Between two quotes a default is
what stands in the body, so an end marker without a quote that stood in the default would stand in the
body, although the stars that were taken out bring together what was apart.

* `Layout.stopsAt_of_cutBody`: what is cut out ends where the first end marker begins;
* `Identifier.isInfix_escape`: what a default holds without quotes is held by its written form;
* `Layout.exists_cutBody_of_mem_bodies`: every body of a layout was cut out behind a start marker;
* `not_isInfix_default`: no default of a body that was cut out holds the end marker.
-/

namespace Stencil

open Identifier (escape defaultToken)

/-! ## What is cut out -/

namespace Layout

variable {m : Markers} {strict : Bool} {text body rest : List Char} {opened a p : Nat}

/-- What is cut out goes up to the first end marker, and the rest is what stands behind that. -/
theorem stopsAt_of_cutBody
    (h : cutBody m strict opened a (text.drop a) = .ok (body, rest)) :
    StopsAt m text a (a + body.length) ∧ body <+: text.drop a ∧
      rest = text.drop (a + body.length + m.stop.length) := by
  rcases nested_or_stops_or_none m strict text a with ⟨hs, q, hq⟩ | ⟨hn, k, hk⟩ | ⟨hn, hnone⟩
  · rw [cutBody_of_nestedAt hs hq] at h
    cases h
  · rw [cutBody_of_stopsAt hk hn] at h
    cases h
    have hle := hk.le
    have hlen := hk.add_length_le
    rw [List.length_take_of_le (by rw [List.length_drop]; omega), Nat.add_sub_cancel' hle]
    exact ⟨hk, List.take_prefix _ _, rfl⟩
  · rw [cutBody_of_forall_not hn hnone] at h
    cases h

/-- A text that goes up to the first end marker does not hold one. -/
theorem StopsAt.not_isInfix (h : StopsAt m text a (a + body.length)) (hb : body <+: text.drop a) :
    ¬m.stop.toList <:+: body := by
  rw [isInfix_iff_exists_occursAt]
  rintro ⟨k, hk⟩
  have hlen := hk.add_length_le (stop_ne_nil m)
  have hpos := List.length_pos_iff.2 (stop_ne_nil m)
  refine h.not_occursAt (Nat.le_add_right a k) (by omega) ?_
  obtain ⟨rest, hrest⟩ := hb
  rw [OccursAt, ← List.drop_drop, ← hrest]
  exact isPrefix_drop_append hk

/-! ## The bodies of a layout -/

/-- A body of the layout of a text was cut out behind a start marker in the text. -/
theorem exists_cutBody_of_mem_bodies (h : body ∈ (ofText m strict p (text.drop p)).bodies) :
    ∃ q rest, OccursAt m.start.toList text q ∧
      cutBody m strict q (q + m.start.length) (text.drop (q + m.start.length)) = .ok (body, rest) := by
  -- By induction on what is left of the text.
  induction hn : text.length - p using Nat.strongRecOn generalizing p with
  | ind n ih =>
    by_cases hp : p < text.length
    · by_cases ho : OccursAt m.start.toList text p
      · rw [ofText_of_occursAt ho] at h
        cases hc : cutBody m strict p (p + m.start.length) (text.drop (p + m.start.length)) with
        | error cause =>
          rw [hc] at h
          cases h
        | ok cut =>
          obtain ⟨first, rest⟩ := cut
          rw [hc] at h
          rcases List.mem_cons.1 h with rfl | h
          · exact ⟨p, rest, ho, hc⟩
          · obtain ⟨hstops, -, rfl⟩ := stopsAt_of_cutBody hc
            have hstop := stop_length_pos m
            exact ih _ (by omega) h rfl
      · rw [ofText_of_not_occursAt hp ho] at h
        exact ih _ (by omega) h rfl
    · rw [List.drop_of_length_le (not_lt.1 hp), ofText_nil] at h
      cases h

end Layout

/-! ## What is escaped -/

namespace Identifier

variable {l d : List Char}

/-- A text without quotes is written as it is. -/
theorem escape_of_not_mem (h : '"' ∉ l) : escape l = l := by
  induction l with
  | nil => rfl
  | cons c l ih =>
    rw [List.mem_cons, not_or] at h
    rw [escape, if_neg (Ne.symm h.1), ih h.2]

/-- What a default holds without quotes is held by its written form. -/
theorem isInfix_escape (hl : '"' ∉ l) (h : l <:+: d) : l <:+: escape d := by
  obtain ⟨s, t, rfl⟩ := h
  rw [escape_append, escape_append, escape_of_not_mem hl]
  exact ⟨escape s, escape t, rfl⟩

/-- The written form of a default is a part of the body. -/
theorem OptionalBody.escape_isInfix_written (b : OptionalBody) : escape b.default <:+: b.written :=
  ⟨'?' :: (b.name ++ b.blank :: (b.front ++ defaultToken)), '"' :: b.back, by
    simp [written, parameters]⟩

end Identifier

/-- No default of a body that is cut out of a text, wherever that is, holds the end marker, unless the
    end marker has a quote in it. In particular no default of a placeholder of the text does. -/
theorem not_isInfix_default {m : Markers} (hquote : '"' ∉ m.stop.toList) (strict : Bool)
    (text : List Char) :
    (∀ opened a body rest name default,
      Layout.cutBody m strict opened a (text.drop a) = .ok (body, rest) →
        Identifier.parse body = .ok (.optional name default) →
          ¬m.stop.toList <:+: default.toList) ∧
    ∀ body ∈ (Layout.ofText m strict 0 text).bodies, ∀ name default,
      Identifier.parse body = .ok (.optional name default) → ¬m.stop.toList <:+: default.toList := by
  have hcut : ∀ opened a body rest name default,
      Layout.cutBody m strict opened a (text.drop a) = .ok (body, rest) →
        Identifier.parse body = .ok (.optional name default) →
          ¬m.stop.toList <:+: default.toList := by
    intro opened a body rest name default hcut hparse hmarker
    obtain ⟨hstops, hbody, -⟩ := Layout.stopsAt_of_cutBody hcut
    obtain ⟨b, rfl, -, rfl⟩ := Identifier.parse_eq_ok_optional_iff.1 hparse
    rw [String.toList_ofList] at hmarker
    have hwritten := (Identifier.isInfix_escape hquote hmarker).trans b.escape_isInfix_written
    exact hstops.not_isInfix hbody hwritten
  refine ⟨hcut, fun body hmem name default hparse => ?_⟩
  obtain ⟨q, rest, -, hq⟩ := Layout.exists_cutBody_of_mem_bodies (p := 0) hmem
  exact hcut _ _ _ _ _ _ hq hparse

/-- A star that is taken out leaves its quote, which keeps the two halves of an end marker apart. -/
theorem not_isInfix_default_halves :
    let m : Markers := ⟨"<", ">>", by decide, by decide⟩
    let body := "?n defVal=\"a>*\">b\"".toList
    '"' ∉ m.stop.toList ∧
      body ∈ (Layout.ofText m true 0 "1 <?n defVal=\"a>*\">b\">> 2".toList).bodies ∧
      Identifier.parse body = .ok (.optional "n" "a>\">b") ∧
      ¬m.stop.toList <:+: "a>\">b".toList := by
  intro m body
  have hquote : '"' ∉ m.stop.toList := by decide
  have hmem : body ∈ (Layout.ofText m true 0 "1 <?n defVal=\"a>*\">b\">> 2".toList).bodies := by
    decide +kernel
  have hparse : Identifier.parse body = .ok (.optional "n" "a>\">b") := by decide
  exact ⟨hquote, hmem, hparse, (not_isInfix_default hquote true _).2 _ hmem _ _ hparse⟩

/-- An end marker with a quote in it can come about where the star before the quote is taken out. -/
example : scan ⟨"<", "a\"", by decide, by decide⟩ false [] "<?n defVal=\"a*\"b\" a\"" = .ok "a\"b" := by
  decide +kernel

end Stencil
