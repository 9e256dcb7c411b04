import Stencil.Proofs.Filling

/-!
# Failures of a scan

A scan fails at the first placeholder that it cannot replace, and what is wrong with that placeholder
decides the failure alone. The cases exclude each other: in strict mode a start marker inside comes
first, then a missing end marker, then a body that is no identifier, then a name without a value.

* `Opens`: a scan gets to a placeholder, having replaced all that come before it;
* `Refused`: a placeholder cannot be replaced, and the failure that reports it;
* `scanCounting_eq_error_iff`: the failures of a scan, for a table of values of any kind;
* `run_eq_error_iff_refused`: the failures of a scan, for a table of texts.
-/

namespace Stencil

open Layout (Nested NestedAt StopsAt HasBody)

/-! ## Bodies -/

/-- A name is bound to nothing, or to null. -/
def Unbound (bindings : Mapping) (name : String) : Prop :=
  bindings.getStr? name = none ∨ bindings.getStr? name = some .null

/-- A body is an identifier with a value that has no text, as it holds an integer of too many
    digits. -/
def Unwritable (bindings : Mapping) (body : List Char) : Prop :=
  ∃ i v, Identifier.parse body = .ok i ∧ bindings.getStr? i.name = some v ∧ v ≠ .null ∧
    v.text? = none

namespace Identifier

variable {bindings : Mapping} {body : List Char} {i : Identifier} {n : String} {v : Value}

/-- A body without a question mark in front is a name as a whole. -/
theorem parse_of_head?_ne (h : body.head? ≠ some '?') :
    parse body = .ok (.mandatory (String.ofList body)) := by
  unfold parse
  split
  · next rest => exact absurd rfl h
  · rfl

/-- A body is a name, or a name with a default, or it is refused and reported as it is. -/
theorem parse_cases (body : List Char) :
    body.head? ≠ some '?' ∨ (∃ name default, parse body = .ok (.optional name default)) ∨
      ∃ flaw, parse body = .error (.missingDefault flaw (String.ofList body)) := by
  by_cases hq : body.head? = some '?'
  · obtain ⟨rest, rfl⟩ : ∃ rest, body = '?' :: rest := by
      cases body with
      | nil => cases hq
      | cons c rest => exact ⟨rest, by rw [Option.some.inj hq]⟩
    rw [parse]
    cases readOptional rest with
    | ok p => exact .inr (.inl ⟨_, _, rfl⟩)
    | error flaw => exact .inr (.inr ⟨flaw, rfl⟩)
  · exact .inl hq

theorem resolve_mandatory_of_unbound (h : Unbound bindings n) :
    (mandatory n).resolve bindings = .error (Error.unbound n) := by
  rcases h with h | h <;> rw [resolve, name, h]

theorem resolve_optional_of_unbound {d : String} (h : Unbound bindings n) :
    (optional n d).resolve bindings = .ok d := by
  rcases h with h | h <;> rw [resolve, name, h]

/-- A value that is not null is replaced by its text. -/
theorem resolve_of_getStr? (hv : bindings.getStr? i.name = some v) (hnull : v ≠ .null) :
    i.resolve bindings = (textOf v.text?).mapError Fault.breach := by
  unfold resolve
  split
  · next h => rw [hv] at h; cases h
  · next h => rw [hv] at h; exact absurd (Option.some.inj h) hnull
  · next w _ h => rw [hv] at h; rw [Option.some.inj h]

/-- An identifier has a value, unless it is a name that is bound to nothing or is bound to something
    without a text. -/
theorem resolve_cases (bindings : Mapping) (i : Identifier) :
    (∃ v, i.resolve bindings = .ok v) ∨ (∃ n, i = .mandatory n ∧ Unbound bindings n) ∨
      ∃ v, bindings.getStr? i.name = some v ∧ v ≠ .null ∧ v.text? = none := by
  by_cases hu : Unbound bindings i.name
  · cases i with
    | mandatory n => exact .inr (.inl ⟨n, rfl, hu⟩)
    | optional n d => exact .inl ⟨d, resolve_optional_of_unbound hu⟩
  · obtain ⟨v, hv⟩ := Option.ne_none_iff_exists'.1 fun h => hu (.inl h)
    have hnull : v ≠ .null := fun h => hu (.inr (h ▸ hv))
    cases ht : v.text? with
    | some s => exact .inl ⟨s, by rw [resolve_of_getStr? hv hnull, ht]; rfl⟩
    | none => exact .inr (.inr ⟨v, hv, hnull, ht⟩)

end Identifier

section Bodies

variable {bindings : Mapping} {body : List Char}

theorem resolveBody_of_parse_eq_error {e : Error} (h : Identifier.parse body = .error e) :
    resolveBody bindings body = .error e := by
  rw [resolveBody, h]

theorem resolveBody_of_unbound (hq : body.head? ≠ some '?')
    (h : Unbound bindings (String.ofList body)) :
    resolveBody bindings body = .error (Error.unbound (String.ofList body)) := by
  rw [resolveBody, Identifier.parse_of_head?_ne hq]
  dsimp only
  rw [Identifier.resolve_mandatory_of_unbound h]
  rfl

theorem resolveBody_of_unwritable (h : Unwritable bindings body) :
    resolveBody bindings body = .error Breach.longInteger := by
  obtain ⟨i, v, hi, hv, hnull, ht⟩ := h
  rw [resolveBody, hi]
  dsimp only
  rw [Identifier.resolve_of_getStr? hv hnull, ht]
  rfl

/-- A body has a value, or it is refused, or its value has no text. -/
theorem resolveBody_cases (bindings : Mapping) (body : List Char) :
    (∃ v, Resolves bindings body v) ∨
      (∃ flaw, Identifier.parse body = .error (.missingDefault flaw (String.ofList body))) ∨
        (body.head? ≠ some '?' ∧ Unbound bindings (String.ofList body)) ∨
          Unwritable bindings body := by
  rcases Identifier.parse_cases body with hq | ⟨n, d, h⟩ | ⟨flaw, h⟩
  · have h := Identifier.parse_of_head?_ne hq
    rcases Identifier.resolve_cases bindings (.mandatory (String.ofList body)) with
      ⟨v, hv⟩ | ⟨n, hn, hu⟩ | ⟨v, hv⟩
    · exact .inl ⟨v, _, h, hv⟩
    · exact .inr (.inr (.inl ⟨hq, Identifier.mandatory.inj hn ▸ hu⟩))
    · exact .inr (.inr (.inr ⟨_, v, h, hv⟩))
  · rcases Identifier.resolve_cases bindings (.optional n d) with ⟨v, hv⟩ | ⟨_, hn, -⟩ | ⟨v, hv⟩
    · exact .inl ⟨v, _, h, hv⟩
    · exact Identifier.noConfusion hn
    · exact .inr (.inr (.inr ⟨_, v, h, hv⟩))
  · exact .inr (.inl ⟨flaw, h⟩)

end Bodies

/-! ## Placeholders -/

/-- The scan of a text replaces every placeholder before `p`, and a placeholder opens at `p`. -/
def Opens (m : Markers) (strict : Bool) (bindings : Mapping) (text : List Char) (p : Nat) : Prop :=
  ∃ d : Division, d.Lies m strict text 0 ∧ (∀ q ∈ d.parts, ∃ v, Resolves bindings q.body v) ∧
    p = (d.written m).length ∧ OccursAt m.start.toList text p

/-- A scan gets to a placeholder that opens at the very beginning. -/
theorem Opens.of_start {m : Markers} {strict : Bool} {bindings : Mapping} {text : List Char}
    (h : OccursAt m.start.toList text 0) : Opens m strict bindings text 0 := by
  refine ⟨⟨[], []⟩, Division.lies_nil_iff.2 ⟨List.nil_prefix, ?_⟩, nofun, rfl, h⟩
  exact fun q _ hq => absurd hq (Nat.not_lt_zero q)

/-- The placeholder that opens at `p` cannot be replaced, and how that is reported. -/
inductive Refused (m : Markers) (strict : Bool) (bindings : Mapping) (text : List Char) (p : Nat) :
    Error → Prop
  /-- In strict mode, a start marker stands inside. -/
  | nested {q : Nat} (hs : strict = true) (h : NestedAt m text (p + m.start.length) q) :
    Refused m strict bindings text p (.nestedStart q m.start m.stop)
  /-- No end marker stands behind the start marker. -/
  | unterminated (hn : ¬Nested m strict text (p + m.start.length))
    (h : ∀ q, p + m.start.length ≤ q → ¬OccursAt m.stop.toList text q) :
    Refused m strict bindings text p (.unterminated p m.stop)
  /-- The body is no identifier. -/
  | missingDefault {body : List Char} {flaw : DefaultFlaw} (hb : HasBody m strict text p body)
    (h : Identifier.parse body = .error (.missingDefault flaw (String.ofList body))) :
    Refused m strict bindings text p (.missingDefault flaw (String.ofList body))
  /-- The body as a whole is a name without a value. -/
  | unbound {body : List Char} (hb : HasBody m strict text p body) (hq : body.head? ≠ some '?')
    (h : Unbound bindings (String.ofList body)) :
    Refused m strict bindings text p (.unbound (String.ofList body))

/-- The placeholder that opens at `p` makes a scan fail: it is refused, or its value has no text. -/
def Stuck (m : Markers) (strict : Bool) (bindings : Mapping) (text : List Char) (p : Nat)
    (f : Fault) : Prop :=
  (∃ e, f = .error e ∧ Refused m strict bindings text p e) ∨
    f = .breach .longInteger ∧ ∃ body, HasBody m strict text p body ∧ Unwritable bindings body

variable {m : Markers} {strict : Bool} {bindings : Mapping} {p p' : Nat} {f f' : Fault}

/-- A placeholder makes a scan fail when its body is cut out, or when the body is resolved. -/
theorem Stuck.cut_or_resolve {text : List Char} (h : Stuck m strict bindings text p f) :
    (∃ e, f = .error e ∧ Layout.cutBody m strict p (p + m.start.length)
      (text.drop (p + m.start.length)) = .error e) ∨
    ∃ body, HasBody m strict text p body ∧ resolveBody bindings body = .error f := by
  rcases h with ⟨e, rfl, h⟩ | ⟨rfl, body, hb, hu⟩
  · cases h with
    | nested hs hn => exact .inl ⟨_, rfl, Layout.cutBody_of_nestedAt hs hn⟩
    | unterminated hn hstop => exact .inl ⟨_, rfl, Layout.cutBody_of_forall_not hn hstop⟩
    | missingDefault hb hp => exact .inr ⟨_, hb, resolveBody_of_parse_eq_error hp⟩
    | unbound hb hq hu => exact .inr ⟨_, hb, resolveBody_of_unbound hq hu⟩
  · exact .inr ⟨_, hb, resolveBody_of_unwritable hu⟩

/-- What a placeholder that makes a scan fail is filled in with. -/
theorem Stuck.fill_eq {text : List Char} (h : Stuck m strict bindings text p f)
    (ho : OccursAt m.start.toList text p) :
    (Layout.ofText m strict p (text.drop p)).fill bindings = .error f := by
  rw [Layout.ofText_of_occursAt ho]
  rcases h.cut_or_resolve with ⟨e, rfl, hc⟩ | ⟨body, hb, hr⟩
  · rw [hc]
    rfl
  · rw [hb.cutBody_eq]
    dsimp only
    rw [Layout.fill, hr]
    rfl

/-- A placeholder that makes a scan fail has no body with a value. -/
theorem Stuck.not_resolves {text body : List Char} {v : String}
    (h : Stuck m strict bindings text p f) (hb : HasBody m strict text p body) :
    ¬Resolves bindings body v := by
  intro hv
  rcases h.cut_or_resolve with ⟨e, -, hc⟩ | ⟨body', hb', hr⟩
  · rw [hb.cutBody_eq] at hc
    cases hc
  · rw [hb'.unique hb, resolveBody_of_resolves hv] at hr
    cases hr

/-- A placeholder without a body that has a value makes a scan fail. -/
theorem exists_stuck {text : List Char}
    (h : Nested m strict text (p + m.start.length) ∨
      (¬Nested m strict text (p + m.start.length) ∧
        ∀ q, p + m.start.length ≤ q → ¬OccursAt m.stop.toList text q) ∨
      ∃ body, HasBody m strict text p body ∧ ¬∃ v, Resolves bindings body v) :
    ∃ f, Stuck m strict bindings text p f := by
  rcases h with ⟨hs, q, hq⟩ | ⟨hn, hstop⟩ | ⟨body, hb, hv⟩
  · exact ⟨_, .inl ⟨_, rfl, .nested hs hq⟩⟩
  · exact ⟨_, .inl ⟨_, rfl, .unterminated hn hstop⟩⟩
  · rcases resolveBody_cases bindings body with h | ⟨flaw, h⟩ | ⟨hq, h⟩ | h
    · exact absurd h hv
    · exact ⟨_, .inl ⟨_, rfl, .missingDefault hb h⟩⟩
    · exact ⟨_, .inl ⟨_, rfl, .unbound hb hq h⟩⟩
    · exact ⟨_, .inr ⟨rfl, body, hb, h⟩⟩

/-! ## Scans -/

variable {text : String}

/-- A scan that gets to a placeholder which makes it fail fails. -/
theorem scanCounting_of_stuck (hp : Opens m strict bindings text.toList p)
    (h : Stuck m strict bindings text.toList p f) :
    scanCounting m strict bindings text = .error f := by
  obtain ⟨d, hd, hv, rfl, ho⟩ := hp
  obtain ⟨values, hvalues⟩ := Division.exists_hasValues hv
  rw [scanCounting, Division.fill_ofText_of_lies hd hvalues, h.fill_eq ho]
  rfl

/-- A scan replaces every placeholder, or it gets to one that makes it fail. -/
theorem divided_or_stuck (m : Markers) (strict : Bool) (bindings : Mapping) (text : List Char) :
    (∃ d : Division, d.Lies m strict text 0 ∧ d.written m = text ∧
      ∃ values, d.HasValues bindings values) ∨
    ∃ p f, Opens m strict bindings text p ∧ Stuck m strict bindings text p f := by
  obtain ⟨d, hd, hv, h⟩ := Division.exists_lies m strict text
    (fun body => ∃ v, Resolves bindings body v) 0 (Nat.zero_le _)
  rcases h with hend | ⟨k, hk, ho, h⟩
  · refine .inl ⟨d, hd, ?_, Division.exists_hasValues hv⟩
    rw [Nat.zero_add] at hend
    exact hd.begins.eq_of_length hend
  · obtain ⟨f, hf⟩ := exists_stuck h
    exact .inr ⟨k, f, ⟨d, hd, hv, by omega, ho⟩, hf⟩

/-- A scan gets to one placeholder at most that makes it fail. -/
theorem Opens.unique {text : List Char} (hp : Opens m strict bindings text p)
    (hp' : Opens m strict bindings text p') (h : Stuck m strict bindings text p f)
    (h' : Stuck m strict bindings text p' f') : p = p' := by
  obtain ⟨d, hd, hv, rfl, ho⟩ := hp
  obtain ⟨e, he, hw, rfl, ho'⟩ := hp'
  rcases Division.eq_or_hasBody hd he (.inr (by rwa [Nat.zero_add])) (.inr (by rwa [Nat.zero_add]))
    with rfl | ⟨q, hq, hb⟩ | ⟨q, hq, hb⟩
  · rfl
  · obtain ⟨v, hv⟩ := hw q hq
    rw [Nat.zero_add] at hb
    exact absurd hv (h.not_resolves hb)
  · obtain ⟨v, hv⟩ := hv q hq
    rw [Nat.zero_add] at hb
    exact absurd hv (h'.not_resolves hb)

/-- A scan fails at the first placeholder that makes it fail, and nowhere else. -/
theorem scanCounting_eq_error_iff : scanCounting m strict bindings text = .error f ↔
    ∃ p, Opens m strict bindings text.toList p ∧ Stuck m strict bindings text.toList p f := by
  refine ⟨fun h => ?_, fun ⟨p, hp, hf⟩ => scanCounting_of_stuck hp hf⟩
  rcases divided_or_stuck m strict bindings text.toList with
    ⟨d, hd, htext, values, hv⟩ | ⟨p, f', hp, hf⟩
  · rw [scanCounting_of_lies hd htext hv] at h
    cases h
  · rw [scanCounting_of_stuck hp hf] at h
    cases h
    exact ⟨p, hp, hf⟩

/-- A scan succeeds if the text is divided up to its end and all bodies have values, and only
    then. -/
theorem scanCounting_eq_ok_iff {out : String} {n : Nat} :
    scanCounting m strict bindings text = .ok (out, n) ↔
      ∃ d : Division, d.Lies m strict text.toList 0 ∧ d.written m = text.toList ∧
        ∃ values, d.HasValues bindings values ∧ out = String.ofList (d.filled values) ∧
          n = d.parts.length := by
  constructor
  · intro h
    rcases divided_or_stuck m strict bindings text.toList with
      ⟨d, hd, htext, values, hv⟩ | ⟨p, f', hp, hf⟩
    · rw [scanCounting_of_lies hd htext hv] at h
      cases h
      exact ⟨d, hd, htext, values, hv, rfl, rfl⟩
    · rw [scanCounting_of_stuck hp hf] at h
      cases h
  · rintro ⟨d, hd, htext, values, hv, rfl, rfl⟩
    exact scanCounting_of_lies hd htext hv

theorem scan_eq_ok_iff {out : String} : scan m strict bindings text = .ok out ↔
    ∃ n, scanCounting m strict bindings text = .ok (out, n) := by
  rw [scan]
  cases scanCounting m strict bindings text with
  | error f => simp [Except.map]
  | ok p => simp [Except.map, Prod.ext_iff]

theorem scan_eq_error_iff : scan m strict bindings text = .error f ↔
    scanCounting m strict bindings text = .error f := by
  rw [scan]
  cases scanCounting m strict bindings text <;> simp [Except.map]

/-- What a scan reports is why the first placeholder that makes it fail is refused. -/
theorem scan_eq_refused_iff {e : Error} : scan m strict bindings text = .error (.error e) ↔
    ∃ p, Opens m strict bindings text.toList p ∧ Refused m strict bindings text.toList p e := by
  rw [scan_eq_error_iff, scanCounting_eq_error_iff]
  refine exists_congr fun p => and_congr_right fun _ => ⟨?_, fun h => .inl ⟨e, rfl, h⟩⟩
  rintro (⟨e, he, h⟩ | ⟨he, -⟩)
  · cases he
    exact h
  · cases he

/-! ## Tables of texts -/

/-- A table of texts. A name may also be bound to null, which is as good as nothing. -/
def OfTexts (bindings : Mapping) : Prop := ∀ e ∈ bindings, e.2 = .null ∨ ∃ s, e.2 = .str s

instance (bindings : Mapping) : Decidable (OfTexts bindings) :=
  decidable_of_iff (∀ e ∈ bindings, e.2 = .null ∨ e.2.str?.isSome) <| by
    refine forall₂_congr fun e _ => or_congr_right ?_
    constructor
    · intro h
      unfold Value.str? at h
      split at h
      · next s hs => exact ⟨s, hs⟩
      · cases h
    · rintro ⟨s, hs⟩
      rw [hs]
      rfl

/-- A text has a text. -/
theorem OfTexts.not_unwritable {body : List Char} (h : OfTexts bindings) :
    ¬Unwritable bindings body := by
  rintro ⟨i, v, -, hv, hnull, ht⟩
  obtain ⟨e, he, rfl⟩ := Mapping.exists_mem_of_get? hv
  rcases h e he with hn | ⟨s, hs⟩
  · exact hnull hn
  · rw [hs] at ht
    cases ht

/-- With a table of texts a scan fails if and only if it gets to a placeholder that is refused. That
    placeholder is the first one that cannot be replaced, and it alone decides the failure. -/
theorem run_eq_error_iff_refused (m : Markers) (strict : Bool) {bindings : Mapping}
    (hb : OfTexts bindings) (text : String) (f : Fault) :
    (Request.ofParts m strict bindings text).run.result = .error f ↔
      ∃! p, Opens m strict bindings text.toList p ∧
        ∃ e, f = .error e ∧ Refused m strict bindings text.toList p e := by
  rw [Request.result_run_ofParts, scan_eq_error_iff, scanCounting_eq_error_iff]
  constructor
  · rintro ⟨p, hp, hf⟩
    refine ⟨p, ⟨hp, ?_⟩, fun p' ⟨hp', hf'⟩ => hp'.unique hp (.inl hf') hf⟩
    rcases hf with hf | ⟨-, body, -, hu⟩
    · exact hf
    · exact absurd hu hb.not_unwritable
  · rintro ⟨p, ⟨hp, hf⟩, -⟩
    exact ⟨p, hp, .inl hf⟩

/-- In strict mode a start marker is met behind a placeholder that is replaced. -/
theorem nested_start_refused :
    let m : Markers := ⟨"*(", ")*", by decide, by decide⟩
    let bindings : Mapping := [(.str "a", .str "1"), (.str "b", .null)]
    let f : Fault := .error (.nestedStart 10 "*(" ")*")
    OfTexts bindings ∧ (Request.ofParts m true bindings "*(a)* *(b *(a)*").run.result = .error f ∧
      ∃! p, Opens m true bindings "*(a)* *(b *(a)*".toList p ∧
        ∃ e, f = .error e ∧ Refused m true bindings "*(a)* *(b *(a)*".toList p e := by
  refine ⟨by decide, by decide +kernel, ?_⟩
  exact (run_eq_error_iff_refused _ true (by decide) _ _).1 (by decide +kernel)

end Stencil
