import Mathlib.Data.List.TakeDrop
import Mathlib.Data.List.TakeWhile
import Mathlib.Data.List.Chain
import Stencil.Proofs.Composition

/-!
# Defaults as they are written

A placeholder whose default is written with its quotes escaped. What a scan reads of it is a
beginning of what was written, up to the first end marker, and of all beginnings only the whole has a
default at all. So the default is read back, or the placeholder is refused, and never another text
takes its place.

* `Identifier.written`: the body of an optional placeholder with a given default;
* `Identifier.unescape?_eq_none_of_isPrefix`: no beginning of an escaped text is closed;
* `Identifier.exists_parse_eq_error`: no other beginning of a written body is an identifier;
* `run_written`: a written default is read back, or its placeholder is refused.
-/

namespace Stencil

open Layout (StopsAt HasBody)

/-! ## Beginnings and parts of texts -/

/-- A beginning of two texts in a row ends in the first one or goes on in the second one. -/
theorem isPrefix_append_cases {α : Type} {l a b : List α} (h : l <+: a ++ b) :
    l <+: a ∨ ∃ c, c <+: b ∧ l = a ++ c := by
  rcases List.prefix_or_prefix_of_prefix h (List.prefix_append a b) with ha | ⟨c, rfl⟩
  · exact .inl ha
  · exact .inr ⟨c, (List.prefix_append_right_inj a).1 h, rfl⟩

/-! ## Beginnings of a written body -/

namespace Identifier

/-- The body of an optional placeholder as it is written: a name, and a default whose quotes are
    escaped. -/
def written (name default : List Char) : List Char :=
  '?' :: (name ++ ' ' :: (defaultToken ++ (escape default ++ ['"'])))

theorem escape_append (d e : List Char) : escape (d ++ e) = escape d ++ escape e := by
  induction d with
  | nil => rfl
  | cons c r ih => by_cases hq : c = '"' <;> simp [escape, hq, ih]

/-- No beginning of an escaped text is closed, as each quote in it has its star. -/
theorem unescape?_eq_none_of_isPrefix {d w : List Char} (h : w <+: escape d) :
    unescape? w = none := by
  induction d generalizing w with
  | nil =>
    obtain rfl := List.prefix_nil.1 h
    rfl
  | cons c r ih =>
    cases w with
    | nil => rfl
    | cons x w =>
      by_cases hq : c = '"'
      · subst hq
        rw [escape, if_pos rfl, List.cons_prefix_cons] at h
        obtain ⟨rfl, h⟩ := h
        -- The star is the end, or the escaped quote follows.
        cases w with
        | nil => rfl
        | cons y w =>
          obtain ⟨rfl, hw⟩ := List.cons_prefix_cons.1 h
          rw [unescape?, ih hw]
          rfl
      · rw [escape, if_neg hq, List.cons_prefix_cons] at h
        obtain ⟨rfl, h⟩ := h
        rw [unescape?_cons hq, ih h]
        · rfl
        · intro _ hw
          obtain ⟨w, rfl⟩ := List.head?_eq_some_iff.1 hw
          obtain ⟨t, ht⟩ := h
          have hhead := head?_escape r
          rw [← ht, List.cons_append, List.head?_cons] at hhead
          obtain ⟨y, -, hy⟩ := Option.map_eq_some_iff.1 hhead.symm
          split at hy
          · cases hy
          · next hne => exact hne hy

/-- A star at the end of a default takes the closing quote for itself. -/
theorem unescape?_eq_none_of_getLast? {d : List Char} (h : d.getLast? = some '*') :
    unescape? (escape d ++ ['"']) = none := by
  obtain ⟨e, rfl⟩ := List.getLast?_eq_some_iff.1 h
  have hescape : escape (e ++ ['*']) ++ ['"'] = escape (e ++ ['"']) := by
    rw [escape_append, escape_append, List.append_assoc]
    rfl
  rw [hescape]
  exact unescape?_eq_none_of_isPrefix List.prefix_rfl

theorem afterFirst?_append (rest : List Char) :
    afterFirst? defaultToken (defaultToken ++ rest) = some rest := by
  have hdrop := dropFront?_eq_some_iff.2 (rfl : defaultToken ++ rest = defaultToken ++ rest)
  rw [defaultToken, List.cons_append, afterFirst?]
  rw [defaultToken, List.cons_append] at hdrop
  rw [hdrop]

/-- A text that is shorter than a token does not have it. -/
theorem afterFirst?_eq_none {token text : List Char} (h : text.length < token.length) :
    afterFirst? token text = none := by
  have hnot {t : List Char} (ht : t.length < token.length) : dropFront? token t = none :=
    dropFront?_eq_none_iff.2 fun hp => absurd hp.length_le (not_le.2 ht)
  induction text with
  | nil => exact hnot h
  | cons c r ih =>
    rw [afterFirst?, hnot h]
    exact ih (Nat.lt_of_succ_lt h)

/-- No other beginning of a written default can be read. -/
theorem exists_readDefault_eq_error {d q : List Char}
    (h : q <+: defaultToken ++ (escape d ++ ['"']))
    (hne : q ≠ defaultToken ++ (escape d ++ ['"'])) : ∃ flaw, readDefault q = .error flaw := by
  rcases isPrefix_append_cases h with htoken | ⟨w, hw, rfl⟩
  · rcases Nat.lt_or_eq_of_le htoken.length_le with hlt | heq
    · exact ⟨.noToken, by rw [readDefault, afterFirst?_eq_none hlt]⟩
    · -- The token is there as a whole, and nothing follows.
      obtain rfl := htoken.eq_of_length heq
      exact ⟨.noClosingQuote, rfl⟩
  · refine ⟨.noClosingQuote, ?_⟩
    rw [readDefault, afterFirst?_append]
    dsimp only
    rcases List.prefix_concat_iff.1 hw with rfl | hw
    · exact absurd rfl hne
    · rw [unescape?_eq_none_of_isPrefix hw]

theorem readDefault_written {d : List Char} (h : d.getLast? ≠ some '*') :
    readDefault (defaultToken ++ (escape d ++ ['"'])) = .ok d := by
  rw [readDefault, afterFirst?_append]
  dsimp only
  rw [unescape?_escape h]

theorem readDefault_written_of_star {d : List Char} (h : d.getLast? = some '*') :
    readDefault (defaultToken ++ (escape d ++ ['"'])) = .error .noClosingQuote := by
  rw [readDefault, afterFirst?_append]
  dsimp only
  rw [unescape?_eq_none_of_getLast? h]

section Name

variable {n : List Char} (hn : ∀ c ∈ n, Text.isBlank c = false)

include hn

/-- Without a blank there is nothing but a name. -/
theorem readOptional_of_isPrefix {r : List Char} (h : r <+: n) :
    readOptional r = .error .noParameters := by
  have hspan : r.span (!Text.isBlank ·) = (r, []) := by
    rw [List.span_eq_takeWhile_dropWhile]
    have hr : ∀ c ∈ r, (!Text.isBlank c) = true := fun c hc => by rw [hn c (h.subset hc)]; rfl
    rw [List.takeWhile_eq_self_iff.2 hr, List.dropWhile_eq_nil_iff.2 hr]
  rw [readOptional, hspan]

/-- The name ends at the first blank. -/
theorem span_append {w : Char} (hw : Text.isBlank w = true) (q : List Char) :
    (n ++ w :: q).span (!Text.isBlank ·) = (n, w :: q) := by
  have hname : ∀ c ∈ n, (!Text.isBlank c) = true := fun c hc => by rw [hn c hc]; rfl
  rw [List.span_eq_takeWhile_dropWhile, List.takeWhile_append_of_pos hname,
    List.dropWhile_append_of_pos hname]
  simp [hw]

/-- Behind the name and a blank the default is read. -/
theorem readOptional_append {w : Char} (hw : Text.isBlank w = true) {q : List Char} (hq : q ≠ []) :
    readOptional (n ++ w :: q) = (readDefault q).map (n, ·) := by
  obtain ⟨c, q, rfl⟩ := List.exists_cons_of_ne_nil hq
  rw [readOptional, span_append hn hw]

/-- No other beginning of a written body is an identifier. -/
theorem exists_parse_eq_error {d cut : List Char} (h : cut <+: written n d) (hnil : cut ≠ [])
    (hne : cut ≠ written n d) :
    ∃ flaw, parse cut = .error (.missingDefault flaw (String.ofList cut)) := by
  obtain ⟨c, r, rfl⟩ := List.exists_cons_of_ne_nil hnil
  obtain ⟨rfl, hr⟩ := List.cons_prefix_cons.1 h
  suffices hread : ∃ flaw, readOptional r = .error flaw by
    obtain ⟨flaw, hflaw⟩ := hread
    exact ⟨flaw, by rw [parse, hflaw]⟩
  rcases isPrefix_append_cases hr with hr | ⟨w, hw, rfl⟩
  · exact ⟨_, readOptional_of_isPrefix hn hr⟩
  cases w with
  | nil => exact ⟨_, by rw [List.append_nil]; exact readOptional_of_isPrefix hn List.prefix_rfl⟩
  | cons x q =>
    obtain ⟨rfl, hq⟩ := List.cons_prefix_cons.1 hw
    cases q with
    | nil => exact ⟨.noParameters, by rw [readOptional, span_append hn rfl]⟩
    | cons y q =>
      obtain ⟨flaw, hflaw⟩ := exists_readDefault_eq_error hq fun he => hne (by rw [written, he])
      exact ⟨flaw, by
        rw [readOptional_append hn rfl (List.cons_ne_nil y q), hflaw]
        rfl⟩

theorem parse_written {d : List Char} (h : d.getLast? ≠ some '*') :
    parse (written n d) = .ok (.optional (String.ofList n) (String.ofList d)) := by
  rw [written, parse, readOptional_append hn rfl (by simp [defaultToken]), readDefault_written h]
  rfl

theorem parse_written_of_star {d : List Char} (h : d.getLast? = some '*') :
    parse (written n d) =
      .error (.missingDefault .noClosingQuote (String.ofList (written n d))) := by
  have hread : readOptional (n ++ ' ' :: (defaultToken ++ (escape d ++ ['"']))) =
      .error .noClosingQuote := by
    rw [readOptional_append hn rfl (by simp [defaultToken]), readDefault_written_of_star h]
    rfl
  rw [written, parse, hread]

end Name

end Identifier

/-! ## A placeholder by itself -/

section Placeholder

variable {m : Markers} {strict : Bool} {bindings : Mapping} {text body : List Char} {k : Nat}

/-- A marker stands behind a front where it stands in the rest. -/
theorem occursAt_append_add {marker front rest : List Char} :
    OccursAt marker (front ++ rest) (front.length + k) ↔ OccursAt marker rest k := by
  rw [OccursAt, OccursAt, List.drop_length_add_append]

/-- A marker stands where it was written. -/
theorem occursAt_append_length (front marker : List Char) :
    OccursAt marker (front ++ marker) front.length := by
  simp [OccursAt]

/-- The body of a placeholder that opens a text goes up to the first end marker in the rest. -/
theorem hasBody_of_isLeast (h : IsLeast {k | OccursAt m.stop.toList text k} k) :
    HasBody m false (m.start.toList ++ text) 0 (text.take k) := by
  have hlen := h.1.add_length_le (Layout.stop_ne_nil m)
  have hk : (text.take k).length = k := List.length_take_of_le (by omega)
  refine ⟨nofun, ?_, ?_⟩
  · rw [hk, Nat.zero_add, ← String.length_toList]
    refine ⟨⟨Nat.le_add_right _ _, occursAt_append_add.2 h.1⟩, fun q ⟨hq, ho⟩ => ?_⟩
    obtain ⟨r, rfl⟩ := Nat.exists_eq_add_of_le hq
    exact Nat.add_le_add_left (h.2 (occursAt_append_add.1 ho)) _
  · rw [Nat.zero_add, ← String.length_toList, List.drop_left]
    exact List.take_prefix k text

/-- A text that is one placeholder is replaced by the value of its body. -/
theorem scan_placeholder {value : String}
    (hb : HasBody m strict (m.start.toList ++ (body ++ m.stop.toList)) 0 body)
    (hv : Resolves bindings body value) :
    scan m strict bindings (String.ofList (m.start.toList ++ (body ++ m.stop.toList))) =
      .ok value := by
  rw [scan_eq_ok_iff]
  have hwritten : Division.written m ⟨[⟨[], body⟩], []⟩ =
      m.start.toList ++ (body ++ m.stop.toList) := by
    simp [Division.written, Part.written]
  refine ⟨1, scanCounting_eq_ok_iff.2 ⟨⟨[⟨[], body⟩], []⟩, ?_, ?_, [value], .cons hv .nil, ?_, rfl⟩⟩
  · rw [String.toList_ofList, Division.lies_cons_iff, Division.lies_nil_iff]
    refine ⟨.ofBody List.nil_prefix (fun q _ hq => absurd hq (Nat.not_lt_zero q)) ?_ hb,
      List.nil_prefix, ?_⟩
    · exact List.prefix_append _ _
    · intro q hq hq'
      exact absurd hq' (not_lt.2 hq)
  · rw [String.toList_ofList, hwritten]
  · simp [Division.filled]

/-- A text that starts with a placeholder whose body is no identifier is refused. -/
theorem scan_of_parse_eq_error {rest : List Char} {flaw : DefaultFlaw}
    (hb : HasBody m strict (m.start.toList ++ rest) 0 body)
    (hp : Identifier.parse body = .error (.missingDefault flaw (String.ofList body))) :
    scan m strict bindings (String.ofList (m.start.toList ++ rest)) =
      .error (.error (.missingDefault flaw (String.ofList body))) := by
  refine scan_eq_error_iff.2 (scanCounting_eq_error_iff.2 ⟨0, .of_start ?_, .inl ⟨_, rfl, ?_⟩⟩)
  · rw [String.toList_ofList]
    exact List.prefix_append _ _
  · rw [String.toList_ofList]
    exact .missingDefault hb hp

end Placeholder

/-! ## Markers of two characters -/

/-- A marker is a part of a text if it stands somewhere in it. -/
theorem isInfix_iff_exists_occursAt {marker text : List Char} :
    marker <:+: text ↔ ∃ k, OccursAt marker text k := by
  constructor
  · rintro ⟨s, t, rfl⟩
    refine ⟨s.length, ?_⟩
    rw [OccursAt, List.append_assoc, List.drop_left]
    exact List.prefix_append marker t
  · rintro ⟨k, hk⟩
    exact hk.isInfix.trans (List.drop_suffix k text).isInfix

/-- A text is a chain if any two characters that are a part of it are related. -/
theorem isChain_iff_of_isInfix {R : Char → Char → Prop} {text : List Char} :
    text.IsChain R ↔ ∀ x y, [x, y] <:+: text → R x y := by
  rw [List.isChain_iff_forall_rel_of_append_cons_cons]
  constructor
  · rintro h x y ⟨s, t, rfl⟩
    have htext : s ++ [x, y] ++ t = s ++ x :: y :: t := List.append_assoc s [x, y] t
    exact h htext
  · rintro h x y s t rfl
    exact h x y ⟨s, t, by simp⟩

/-- An escaped text holds a star behind a bracket where the text holds a star or a quote there. -/
theorem isChain_escape_iff {d : List Char} :
    (Identifier.escape d).IsChain (fun x y => x = ')' → ¬y = '*') ↔
      d.IsChain fun x y => x = ')' → ¬y = '*' ∧ ¬y = '"' := by
  induction d with
  | nil => simp [Identifier.escape]
  | cons c r ih =>
    by_cases hq : c = '"'
    · subst hq
      simp [Identifier.escape, List.isChain_cons, ih]
    · rw [Identifier.escape, if_neg hq, List.isChain_cons, List.isChain_cons, ih,
        Identifier.head?_escape]
      refine and_congr_left fun _ => ?_
      cases r with
      | nil => simp
      | cons x r => by_cases hx : x = '"' <;> simp [hx]

/-- With `)*` as the end marker, it stands in a written body or goes over its end if it is a part of
    the name, or if the default holds it or a quote behind a bracket. -/
theorem forall_not_occursAt_written_iff {n d : List Char} (hn : ¬[')', '*'] <:+: n) :
    (∀ k < (Identifier.written n d).length,
      ¬OccursAt [')', '*'] (Identifier.written n d ++ [')', '*']) k) ↔
      ¬[')', '*'] <:+: d ∧ ¬[')', '"'] <:+: d := by
  have hwhole : (∀ k < (Identifier.written n d).length,
      ¬OccursAt [')', '*'] (Identifier.written n d ++ [')', '*']) k) ↔
        ¬[')', '*'] <:+: Identifier.written n d ++ [')'] := by
    rw [isInfix_iff_exists_occursAt, not_exists]
    -- The marker that ends the placeholder is the only one that ends behind its first character.
    have happ : Identifier.written n d ++ [')', '*'] = Identifier.written n d ++ [')'] ++ ['*'] := by
      simp
    constructor
    · intro h k hk
      have hlen := hk.add_length_le (List.cons_ne_nil _ _)
      simp only [List.length_append, List.length_cons, List.length_nil] at hlen
      exact h k (by omega) (happ ▸ isPrefix_drop_append hk)
    · intro h k hk ho
      rw [happ, occursAt_append_of_le (by simp; omega)] at ho
      exact h k ho
  have hpair {text : List Char} : ¬[')', '*'] <:+: text ↔
      text.IsChain fun x y => x = ')' → ¬y = '*' := by
    rw [isChain_iff_of_isInfix]
    refine ⟨fun h x y hxy hx hy => h ?_, fun h hxy => h _ _ hxy rfl rfl⟩
    rwa [hx, hy] at hxy
  have hd : (¬[')', '*'] <:+: d ∧ ¬[')', '"'] <:+: d) ↔
      d.IsChain fun x y => x = ')' → ¬y = '*' ∧ ¬y = '"' := by
    rw [isChain_iff_of_isInfix]
    constructor
    · rintro ⟨hstar, hquote⟩ x y hxy rfl
      exact ⟨fun hy => hstar (hy ▸ hxy), fun hy => hquote (hy ▸ hxy)⟩
    · exact fun h => ⟨fun hxy => (h _ _ hxy rfl).1 rfl, fun hxy => (h _ _ hxy rfl).2 rfl⟩
  rw [hwhole, hpair, hd, ← isChain_escape_iff]
  rw [hpair] at hn
  simp [Identifier.written, Identifier.defaultToken, List.isChain_cons, List.isChain_append, hn]

/-! ## Reading a written default back -/

section Written

variable {m : Markers} {bindings : Mapping} {n d : List Char}

/-- The scan of a placeholder as it is written, up to the first end marker: the default comes back if
    that marker is the one behind the body and the default does not end in a star, and else the
    placeholder is refused, with what was read of its body. -/
theorem scan_written_of_isLeast (hstop : m.stop.toList.head? ≠ some '?')
    (hn : ∀ c ∈ n, Text.isBlank c = false) (hu : Unbound bindings (String.ofList n)) {k : Nat}
    (hk : IsLeast {k | OccursAt m.stop.toList (Identifier.written n d ++ m.stop.toList) k} k) :
    (k = (Identifier.written n d).length ∧ d.getLast? ≠ some '*' ∧
      scan m false bindings
        (String.ofList (m.start.toList ++ (Identifier.written n d ++ m.stop.toList))) =
          .ok (String.ofList d)) ∨
    ((k < (Identifier.written n d).length ∨ d.getLast? = some '*') ∧
      ∃ flaw cut, cut <+: Identifier.written n d ∧ scan m false bindings
        (String.ofList (m.start.toList ++ (Identifier.written n d ++ m.stop.toList))) =
          .error (.error (.missingDefault flaw (String.ofList cut)))) := by
  have hb := hasBody_of_isLeast hk
  have hend := occursAt_append_length (Identifier.written n d) m.stop.toList
  rcases Nat.lt_or_eq_of_le (hk.2 hend) with hlt | rfl
  · -- What was read is not all that was written, and it is not empty either.
    refine .inr ⟨.inl hlt, ?_⟩
    rw [List.take_append_of_le_length hlt.le] at hb
    have hcut := List.take_prefix k (Identifier.written n d)
    have hlen : ((Identifier.written n d).take k).length = k := List.length_take_of_le hlt.le
    have hnil : (Identifier.written n d).take k ≠ [] := by
      intro hnil
      rw [hnil, List.length_nil] at hlen
      subst hlen
      obtain ⟨c, r, hc⟩ := List.exists_cons_of_ne_nil (Layout.stop_ne_nil m)
      have ho : OccursAt m.stop.toList (Identifier.written n d ++ m.stop.toList) 0 := hk.1
      rw [OccursAt, hc, List.drop_zero, Identifier.written, List.cons_append,
        List.cons_prefix_cons] at ho
      exact hstop (by rw [hc, ho.1, List.head?_cons])
    obtain ⟨flaw, hp⟩ := Identifier.exists_parse_eq_error hn hcut hnil fun he =>
      hlt.ne (by rw [← hlen, he])
    exact ⟨flaw, _, hcut, scan_of_parse_eq_error hb hp⟩
  · rw [List.take_left] at hb
    by_cases hd : d.getLast? = some '*'
    · exact .inr ⟨.inr hd, _, _, List.prefix_rfl,
        scan_of_parse_eq_error hb (Identifier.parse_written_of_star hn hd)⟩
    · exact .inl ⟨rfl, hd, scan_placeholder hb
        ⟨_, Identifier.parse_written hn hd, Identifier.resolve_optional_of_unbound hu⟩⟩

end Written

/-- The scan of a placeholder with a written default gives the default back or refuses the
    placeholder, for every name without blanks that has no value and for every end marker that does
    not begin with a question mark. It gives the default back if and only if the default does not end
    in a star and no end marker begins in the body. With the end marker `)*`, this is said of the
    default alone. -/
theorem run_written (m : Markers) (bindings : Mapping) (n d : String)
    (hstop : m.stop.toList.head? ≠ some '?') (hn : ∀ c ∈ n.toList, Text.isBlank c = false)
    (hu : Unbound bindings n) :
    let body := Identifier.written n.toList d.toList
    let result := (Request.ofParts m false bindings
      (m.start ++ String.ofList body ++ m.stop)).run.result
    (result = .ok d ∨ ∃ flaw cut, cut <+: body ∧
      result = .error (.error (.missingDefault flaw (String.ofList cut)))) ∧
    (result = .ok d ↔ d.toList.getLast? ≠ some '*' ∧
      ∀ k < body.length, ¬OccursAt m.stop.toList (body ++ m.stop.toList) k) ∧
    (m.stop = ")*" → ¬")*".toList <:+: n.toList → (result = .ok d ↔ d.toList.getLast? ≠ some '*' ∧
      ¬")*".toList <:+: d.toList ∧ ¬")\"".toList <:+: d.toList)) := by
  intro body result
  have hresult : result = scan m false bindings
      (String.ofList (m.start.toList ++ (body ++ m.stop.toList))) := by
    rw [String.ofList_append, String.ofList_append, String.ofList_toList, String.ofList_toList,
      ← String.append_assoc]
    exact Request.result_run_ofParts _ _ _ _
  have hu' : Unbound bindings (String.ofList n.toList) := by rwa [String.ofList_toList]
  have hend := occursAt_append_length body m.stop.toList
  obtain ⟨k, hk⟩ := exists_isLeast ⟨_, hend⟩
  have hcases := scan_written_of_isLeast hstop hn hu' hk
  rw [← hresult, String.ofList_toList] at hcases
  have hiff : result = .ok d ↔ d.toList.getLast? ≠ some '*' ∧
      ∀ k < body.length, ¬OccursAt m.stop.toList (body ++ m.stop.toList) k := by
    rcases hcases with ⟨rfl, hd, hok⟩ | ⟨hbad, flaw, cut, -, herror⟩
    · exact iff_of_true hok ⟨hd, fun q hq ho => absurd hq (not_lt.2 (hk.2 ho))⟩
    · refine iff_of_false (by rw [herror]; exact nofun) fun ⟨hd, hnone⟩ => ?_
      rcases hbad with hlt | hstar
      · exact hnone k hlt hk.1
      · exact hd hstar
  refine ⟨?_, hiff, fun hm hname => ?_⟩
  · rcases hcases with ⟨-, -, hok⟩ | ⟨-, flaw, cut, hcut, herror⟩
    · exact .inl hok
    · exact .inr ⟨flaw, cut, hcut, herror⟩
  · rw [hiff, hm]
    exact and_congr_right fun _ => forall_not_occursAt_written_iff hname

/-- A quoted star, and a bracket at the end, are read back. -/
theorem quoted_star_read_back :
    let m : Markers := ⟨"*(", ")*", by decide, by decide⟩
    let d := "he said \"*\" :)"
    m.stop.toList.head? ≠ some '?' ∧ (∀ c ∈ "name".toList, Text.isBlank c = false) ∧
      Unbound [(.str "name", .null)] "name" ∧ ¬")*".toList <:+: "name".toList ∧
      (Request.ofParts m false [(.str "name", .null)] (m.start ++
        String.ofList (Identifier.written "name".toList d.toList) ++ m.stop)).run.result = .ok d := by
  intro m d
  have hstop : m.stop.toList.head? ≠ some '?' := by decide
  have hn : ∀ c ∈ "name".toList, Text.isBlank c = false := by simp [Text.isBlank]
  have hu : Unbound [(.str "name", .null)] "name" := .inr rfl
  have hname : ¬")*".toList <:+: "name".toList := by decide
  have hstar : d.toList.getLast? ≠ some '*' := by decide
  have hd : ¬")*".toList <:+: d.toList ∧ ¬")\"".toList <:+: d.toList := by decide +kernel
  exact ⟨hstop, hn, hu, hname, ((run_written m _ "name" d hstop hn hu).2.2 rfl hname).2 ⟨hstar, hd⟩⟩

/-- A bracket before a quote makes an end marker of the escaped quote, and the placeholder is refused. -/
example : scan ⟨"*(", ")*", by decide, by decide⟩ false []
    "*(?name defVal=\"(he said *\"no)*\"\")*" =
      .error (.error (.missingDefault .noClosingQuote "?name defVal=\"(he said *\"no")) := by
  decide +kernel

end Stencil
