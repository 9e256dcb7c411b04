import Stencil.Proofs.WrittenDefault

/-!
# The grammar of bodies

What the body of an optional placeholder is made of: a question mark, a name, a blank, and a default
in quotes behind the first token that announces one. The star that escapes a quote is an ordinary
character everywhere else, and still a body is read in one way only, and nothing but what is made in
this way is read at all.

* `Identifier.afterFirst?_eq_some_iff`, `Identifier.unescape?_eq_some_iff`: the two readers of a
  default, the one that looks for the token and the one that looks for the closing quote;
* `Identifier.OptionalBody`: the parts of a body, as they have to be;
* `Identifier.OptionalBody.written_injective`: a body has its parts in one way at most;
* `Identifier.parse_iff_written`: the identifiers of all bodies, and how the others are refused.
-/

namespace Stencil

namespace Identifier

/-! ## Readers of a default -/

section Readers

variable {token text rest parameters n d : List Char}

/-- What is read behind a token is what follows the first place where it stands. -/
theorem afterFirst?_eq_some_iff : afterFirst? token text = some rest ↔
    ∃ front, text = front ++ (token ++ rest) ∧ ∀ k < front.length, ¬OccursAt token text k := by
  induction text with
  | nil =>
    rw [afterFirst?, dropFront?_eq_some_iff]
    constructor
    · exact fun h => ⟨[], h, fun k hk => absurd hk k.not_lt_zero⟩
    · rintro ⟨front, h, -⟩
      exact (List.append_eq_nil_iff.1 h.symm).2.symm
  | cons c r ih =>
    rw [afterFirst?]
    cases hd : dropFront? token (c :: r) with
    | some rest' =>
      -- The token stands in front, so nothing comes before it.
      have htext := dropFront?_eq_some_iff.1 hd
      rw [Option.some.injEq]
      constructor
      · rintro rfl
        exact ⟨[], htext, fun k hk => absurd hk k.not_lt_zero⟩
      · rintro ⟨front, h, hfirst⟩
        cases front with
        | nil => exact List.append_cancel_left (htext.symm.trans h)
        | cons x front => exact absurd ⟨rest', htext.symm⟩ (hfirst 0 (Nat.succ_pos _))
    | none =>
      have hnot := dropFront?_eq_none_iff.1 hd
      refine ih.trans ⟨?_, ?_⟩
      · rintro ⟨front, rfl, hfirst⟩
        refine ⟨c :: front, rfl, fun k hk => ?_⟩
        cases k with
        | zero => exact hnot
        | succ k => exact hfirst k (Nat.lt_of_succ_lt_succ hk)
      · rintro ⟨front, h, hfirst⟩
        cases front with
        | nil => exact absurd ⟨rest, h.symm⟩ hnot
        | cons x front =>
          exact ⟨front, (List.cons.inj h).2, fun k hk => hfirst (k + 1) (Nat.succ_lt_succ hk)⟩

/-- What is read up to a closing quote is what was escaped, and it does not end in a star. -/
theorem unescape?_eq_some_iff :
    unescape? text = some d ↔ d.getLast? ≠ some '*' ∧ ∃ back, text = escape d ++ '"' :: back := by
  refine ⟨fun h => ?_, ?_⟩
  · fun_induction unescape? text generalizing d with
    | case1 => cases h
    | case2 r ih =>
      obtain ⟨e, he, rfl⟩ := Option.map_eq_some_iff.1 h
      obtain ⟨hlast, back, rfl⟩ := ih he
      refine ⟨?_, back, by simp [escape]⟩
      cases e with
      | nil => simp
      | cons x e => rwa [List.getLast?_cons_cons]
    | case3 r =>
      cases h
      exact ⟨by simp, r, rfl⟩
    | case4 c r hnot hq ih =>
      obtain ⟨e, he, rfl⟩ := Option.map_eq_some_iff.1 h
      obtain ⟨hlast, back, rfl⟩ := ih he
      refine ⟨?_, back, by simp [escape, hq]⟩
      cases e with
      | nil =>
        -- A star in front of the closing quote would have been read as part of an escaped quote.
        rw [List.getLast?_singleton, Ne, Option.some.injEq]
        exact fun hs => hnot back hs rfl
      | cons x e => rwa [List.getLast?_cons_cons]
  · rintro ⟨hlast, back, rfl⟩
    exact unescape?_escape_append hlast back

/-- The default of parameters is what was escaped behind the first token. -/
theorem readDefault_eq_ok_iff : readDefault parameters = .ok d ↔
    d.getLast? ≠ some '*' ∧ ∃ front back,
      parameters = front ++ (defaultToken ++ (escape d ++ '"' :: back)) ∧
        ∀ k < front.length, ¬OccursAt defaultToken parameters k := by
  rw [readDefault]
  constructor
  · intro h
    cases ha : afterFirst? defaultToken parameters with
    | none =>
      rw [ha] at h
      cases h
    | some rest =>
      rw [ha] at h
      cases hu : unescape? rest with
      | none =>
        simp only [hu] at h
        cases h
      | some e =>
        simp only [hu] at h
        cases h
        obtain ⟨front, htext, hfirst⟩ := afterFirst?_eq_some_iff.1 ha
        obtain ⟨hlast, back, rfl⟩ := unescape?_eq_some_iff.1 hu
        exact ⟨hlast, front, back, htext, hfirst⟩
  · rintro ⟨hlast, front, back, htext, hfirst⟩
    rw [afterFirst?_eq_some_iff.2 ⟨front, htext, hfirst⟩]
    dsimp only
    rw [unescape?_eq_some_iff.2 ⟨hlast, back, rfl⟩]

/-- An optional identifier is a name without blanks, and behind the next blank its parameters. -/
theorem readOptional_eq_ok_iff : readOptional rest = .ok (n, d) ↔
    ∃ blank parameters, rest = n ++ blank :: parameters ∧ (∀ c ∈ n, Text.isBlank c = false) ∧
      Text.isBlank blank = true ∧ readDefault parameters = .ok d := by
  constructor
  · intro h
    have hname : ∀ c ∈ rest.takeWhile (!Text.isBlank ·), Text.isBlank c = false := fun c hc => by
      simpa using List.mem_takeWhile_imp hc
    have hrest := (List.takeWhile_append_dropWhile (p := (!Text.isBlank ·)) (l := rest)).symm
    rw [readOptional, List.span_eq_takeWhile_dropWhile] at h
    cases hdrop : rest.dropWhile (!Text.isBlank ·) with
    | nil =>
      rw [hdrop] at h
      cases h
    | cons blank parameters =>
      rw [hdrop] at h hrest
      have hblank : Text.isBlank blank = true := by
        have hhead := List.head_dropWhile_not (l := rest) (!Text.isBlank ·) (by rw [hdrop]; simp)
        simpa [hdrop] using hhead
      cases parameters with
      | nil => cases h
      | cons c q =>
        dsimp only at h
        cases hread : readDefault (c :: q) with
        | error flaw =>
          rw [hread] at h
          cases h
        | ok e =>
          rw [hread] at h
          cases h
          exact ⟨blank, c :: q, hrest, hname, hblank, hread⟩
  · rintro ⟨blank, parameters, rfl, hname, hblank, hread⟩
    have hne : parameters ≠ [] := by
      rintro rfl
      cases hread
    rw [readOptional_append hname hblank hne, hread]
    rfl

end Readers

/-! ## Optional bodies -/

/-- The parts of the body of an optional placeholder, which stand between a question mark, the token of
    the default and its closing quote. -/
structure OptionalBody where
  name : List Char
  /-- The first blank, which ends the name. -/
  blank : Char
  /-- What stands before the token. -/
  front : List Char
  default : List Char
  /-- What stands behind the closing quote. -/
  back : List Char
  name_free : ∀ c ∈ name, Text.isBlank c = false
  isBlank_blank : Text.isBlank blank = true
  /-- The token stands nowhere before the place where it is written. -/
  first : ∀ k < front.length,
    ¬OccursAt defaultToken (front ++ (defaultToken ++ (escape default ++ '"' :: back))) k
  /-- A star at the end would take the closing quote for itself. -/
  not_star : default.getLast? ≠ some '*'

namespace OptionalBody

/-- What stands behind the first blank. -/
def parameters (b : OptionalBody) : List Char :=
  b.front ++ (defaultToken ++ (escape b.default ++ '"' :: b.back))

/-- A body as it is written. -/
def written (b : OptionalBody) : List Char := '?' :: (b.name ++ b.blank :: b.parameters)

variable (b : OptionalBody)

theorem readDefault_parameters : readDefault b.parameters = .ok b.default :=
  readDefault_eq_ok_iff.2 ⟨b.not_star, b.front, b.back, rfl, b.first⟩

theorem readOptional_written :
    readOptional (b.name ++ b.blank :: b.parameters) = .ok (b.name, b.default) :=
  readOptional_eq_ok_iff.2
    ⟨b.blank, b.parameters, rfl, b.name_free, b.isBlank_blank, b.readDefault_parameters⟩

theorem parse_written :
    parse b.written = .ok (.optional (String.ofList b.name) (String.ofList b.default)) := by
  rw [written, parse, b.readOptional_written]

/-- A token that is announced behind two fronts of the same text, and nowhere before, is announced at
    one place. -/
theorem length_front_le {b b' : OptionalBody} (h : b.parameters = b'.parameters) :
    b.front.length ≤ b'.front.length := by
  by_contra hlt
  refine b.first _ (not_le.1 hlt) ?_
  change OccursAt defaultToken b.parameters _
  rw [h, OccursAt, parameters, List.drop_left]
  exact List.prefix_append _ _

/-- A body has its parts in one way at most. -/
theorem written_injective : Function.Injective written := by
  intro b b' h
  have h : b.name ++ b.blank :: b.parameters = b'.name ++ b'.blank :: b'.parameters :=
    (List.cons.inj h).2
  -- Reading the body gives the name and the default; the rest is what is left over.
  have hread := b.readOptional_written
  rw [h, b'.readOptional_written] at hread
  obtain ⟨hname, hdefault⟩ := Prod.mk.inj (Except.ok.inj hread)
  rw [hname] at h
  obtain ⟨hblank, hparameters⟩ := List.cons.inj (List.append_cancel_left h)
  have hlength := le_antisymm (length_front_le hparameters) (length_front_le hparameters.symm)
  obtain ⟨hfront, hrest⟩ := List.append_inj hparameters hlength
  rw [hdefault] at hrest
  have hback := (List.cons.inj (List.append_cancel_left (List.append_cancel_left hrest))).2
  obtain ⟨_, _, _, _, _, _, _, _, _⟩ := b
  obtain ⟨_, _, _, _, _, _, _, _, _⟩ := b'
  dsimp only at hname hdefault hblank hfront hback
  subst hname hdefault hblank hfront hback
  rfl

end OptionalBody

/-! ## Bodies -/

section Bodies

variable {body : List Char}

/-- The bodies of optional identifiers. -/
theorem parse_eq_ok_optional_iff {name default : String} :
    parse body = .ok (.optional name default) ↔ ∃ b : OptionalBody, b.written = body ∧
      String.ofList b.name = name ∧ String.ofList b.default = default := by
  constructor
  · intro h
    unfold parse at h
    split at h
    · next rest =>
      split at h
      · next n d hread =>
        cases h
        obtain ⟨blank, parameters, rfl, hname, hblank, hdefault⟩ := readOptional_eq_ok_iff.1 hread
        obtain ⟨hstar, front, back, rfl, hfirst⟩ := readDefault_eq_ok_iff.1 hdefault
        exact ⟨⟨n, blank, front, d, back, hname, hblank, hfirst, hstar⟩, rfl, rfl, rfl⟩
      · cases h
    · cases h
  · rintro ⟨b, rfl, rfl, rfl⟩
    exact b.parse_written

/-- The bodies of mandatory identifiers. -/
theorem parse_eq_ok_mandatory_iff {name : String} : parse body = .ok (.mandatory name) ↔
    body.head? ≠ some '?' ∧ name = String.ofList body := by
  constructor
  · intro h
    unfold parse at h
    split at h
    · split at h <;> cases h
    · next hnot =>
      cases h
      refine ⟨fun hq => ?_, rfl⟩
      obtain ⟨rest, rfl⟩ := List.head?_eq_some_iff.1 hq
      exact hnot rest rfl
  · rintro ⟨hq, rfl⟩
    exact parse_of_head?_ne hq

/-- A body is refused if it announces an optional identifier and has no parts of one. -/
theorem exists_parse_eq_error_iff : (∃ e, parse body = .error e) ↔
    body.head? = some '?' ∧ ¬∃ b : OptionalBody, b.written = body := by
  rcases parse_cases body with hq | ⟨name, default, h⟩ | ⟨flaw, h⟩
  · rw [parse_of_head?_ne hq]
    exact iff_of_false (by simp) fun h => hq h.1
  · obtain ⟨b, hb, -⟩ := parse_eq_ok_optional_iff.1 h
    rw [h]
    exact iff_of_false (by simp) fun h => h.2 ⟨b, hb⟩
  · rw [h]
    refine iff_of_true ⟨_, rfl⟩ ⟨?_, ?_⟩
    · by_contra hq
      rw [parse_of_head?_ne hq] at h
      cases h
    · rintro ⟨b, rfl⟩
      rw [b.parse_written] at h
      cases h

/-- A refused body is reported as a whole. -/
theorem report_of_parse_eq_error {e : Error} (h : parse body = .error e) :
    e.category = .missingDefault ∧ e.context = [(.str "body", .str (String.ofList body))] := by
  rcases parse_cases body with hq | ⟨name, default, h'⟩ | ⟨flaw, h'⟩
  · rw [parse_of_head?_ne hq] at h
    cases h
  · rw [h'] at h
    cases h
  · rw [h'] at h
    cases h
    exact ⟨rfl, rfl⟩

/-- Every text that does not end in a star is the default of some body. -/
theorem exists_parse_eq_ok_optional {d : List Char} (hd : d.getLast? ≠ some '*') :
    ∃ body name, parse body = .ok (.optional name (String.ofList d)) :=
  ⟨_, _, OptionalBody.parse_written ⟨[], ' ', [], d, [], nofun, rfl, nofun, hd⟩⟩

end Bodies

/-- A body without a question mark in front is a name as a whole. Any other body is an optional
    identifier if and only if it is made of the parts of one, which it is in one way at most, and else
    it is refused as one without a default. So every optional identifier has a default, the defaults are
    the texts that do not end in a star, and reading a default is the inverse of escaping one. -/
theorem parse_iff_written (body : List Char) :
    (∀ name, parse body = .ok (.mandatory name) ↔
      body.head? ≠ some '?' ∧ name = String.ofList body) ∧
    (∀ name default, parse body = .ok (.optional name default) ↔ ∃ b : OptionalBody,
      b.written = body ∧ String.ofList b.name = name ∧ String.ofList b.default = default) ∧
    (∀ b b' : OptionalBody, b.written = body → b'.written = body → b = b') ∧
    ((∃ e, parse body = .error e) ↔
      body.head? = some '?' ∧ ¬∃ b : OptionalBody, b.written = body) ∧
    (∀ e, parse body = .error e → e.category = .missingDefault ∧
      e.context = [(.str "body", .str (String.ofList body))]) ∧
    (∀ i, parse body = .ok i → (i.default?.isSome ↔ body.head? = some '?')) ∧
    (∀ d : List Char, (∃ body name, parse body = .ok (.optional name (String.ofList d))) ↔
      d.getLast? ≠ some '*') ∧
    ∀ text d, unescape? text = some d ↔
      d.getLast? ≠ some '*' ∧ ∃ back, text = escape d ++ '"' :: back := by
  refine ⟨fun name => parse_eq_ok_mandatory_iff, fun name default => parse_eq_ok_optional_iff,
    fun b b' hb hb' => OptionalBody.written_injective (hb.trans hb'.symm),
    exists_parse_eq_error_iff, fun e => report_of_parse_eq_error, fun i hi => ?_,
    fun d => ⟨?_, exists_parse_eq_ok_optional⟩, fun text d => unescape?_eq_some_iff⟩
  · cases i with
    | mandatory name => exact iff_of_false nofun (parse_eq_ok_mandatory_iff.1 hi).1
    | optional name default =>
      obtain ⟨b, rfl, -⟩ := parse_eq_ok_optional_iff.1 hi
      exact iff_of_true rfl rfl
  · rintro ⟨body, name, h⟩
    obtain ⟨b, -, -, hdefault⟩ := parse_eq_ok_optional_iff.1 h
    rw [← String.ofList_injective hdefault]
    exact b.not_star

/-- Other parameters may stand on both sides of a default, and its quotes are read without their stars.
    A star before the closing quote leaves a body that is made in no way. -/
theorem quoted_default_parsed :
    parse "?user size=\"3\" defVal=\"a *\"b*\"\" x".toList = .ok (.optional "user" "a \"b\"") ∧
      ¬∃ b : OptionalBody, b.written = "?user defVal=\"a*\"".toList := by
  obtain ⟨-, hoptional, -⟩ :=
    parse_iff_written "?user size=\"3\" defVal=\"a *\"b*\"\" x".toList
  obtain ⟨-, -, -, hrefused, -⟩ := parse_iff_written "?user defVal=\"a*\"".toList
  have herror : parse "?user defVal=\"a*\"".toList =
      .error (.missingDefault .noClosingQuote "?user defVal=\"a*\"") := by decide
  refine ⟨(hoptional _ _).2 ⟨⟨"user".toList, ' ', "size=\"3\" ".toList, "a \"b\"".toList, " x".toList,
    by simp [Text.isBlank], by decide, by decide, by decide⟩, by decide, by decide, by decide⟩, ?_⟩
  exact (hrefused.1 ⟨_, herror⟩).2

end Identifier

end Stencil
