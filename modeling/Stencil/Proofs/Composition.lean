import Stencil.Proofs.Failure

/-!
# Texts in a row

The scan of two texts in a row is the scan of the one and then of the other, as long as no start
marker begins in the first text and ends in the second one. What is read of the first text does not
depend on the second one, and the second one is read as it would be by itself, with all positions
moved by the length of the first one.

* `Separate`: no start marker goes over the border between two texts;
* `Division.Lies.append`, `Stuck.append`: what is read of a text stays the same with more behind it;
* `Layout.ofText_shift`: what stands further on in a text is read alike, with positions moved;
* `run_append`: the scan of two texts in a row.
-/

namespace Stencil

open Layout (NestedAt HasBody)

/-! ## Failures further on -/

/-- A failure that was found `n` characters further on. -/
def Error.shift (n : Nat) : Error → Error
  | .nestedStart position start stop => .nestedStart (position + n) start stop
  | .unterminated position stop => .unterminated (position + n) stop
  | e => e

/-- Any failure that was found `n` characters further on. -/
def Fault.shift (n : Nat) : Fault → Fault
  | .error e => .error (e.shift n)
  | f => f

/-- A fact of a report from `n` characters further on: a position is greater by `n`. -/
def Report.shiftFact (n : Nat) (fact : Key × Value) : Key × Value :=
  match fact.2 with
  | .int i => if fact.1 = .str "position" then (fact.1, .int (i + n)) else fact
  | _ => fact

/-- A report from `n` characters further on. -/
def Report.shift (n : Nat) (r : Report) : Report :=
  { r with context := r.context.map (Report.shiftFact n) }

theorem Report.shiftFact_position (n : Nat) (i : Int) :
    shiftFact n (.str "position", .int i) = (.str "position", .int (i + n)) := by
  unfold shiftFact
  exact if_pos rfl

theorem Report.shiftFact_of_ne {n : Nat} {s : String} (h : s ≠ "position") (v : Value) :
    shiftFact n (.str s, v) = (.str s, v) := by
  have hkey : Key.str s ≠ .str "position" := by simpa using h
  unfold shiftFact
  split
  · exact if_neg hkey
  · rfl

namespace Error

variable (e : Error) (n : Nat)

theorem context_shift : (e.shift n).context = e.context.map (Report.shiftFact n) := by
  have hstart (v : Value) := Report.shiftFact_of_ne (n := n) (s := "start") (by decide) v
  have hstop (v : Value) := Report.shiftFact_of_ne (n := n) (s := "end") (by decide) v
  cases e with
  | nestedStart position start stop =>
    rw [context, List.map_cons, List.map_cons, List.map_cons, List.map_nil, hstart, hstop,
      Report.shiftFact_position, ← Int.natCast_add]
    rfl
  | unterminated position stop =>
    rw [context, List.map_cons, List.map_cons, List.map_nil, hstop, Report.shiftFact_position,
      ← Int.natCast_add]
    rfl
  | unbound name => exact congrArg (· :: []) (Report.shiftFact_of_ne (by decide) _).symm
  | _ => simp [shift, context, Report.shiftFact_of_ne]

/-- A failure that was found further on tells the same, with greater positions. -/
theorem report_shift : (e.shift n).report = e.report.shift n := by
  rw [report, report, Report.shift, context_shift]
  cases e <;> rfl

end Error

/-! ## The first text -/

/-- No start marker begins in `s` and ends in `t`, where `t` stands behind `s`. -/
def Separate (m : Markers) (s t : List Char) : Prop :=
  ∀ q < s.length, s.length < q + m.start.length → ¬OccursAt m.start.toList (s ++ t) q

instance (m : Markers) (s t : List Char) : Decidable (Separate m s t) :=
  inferInstanceAs (Decidable
    (∀ q < s.length, s.length < q + m.start.length → ¬OccursAt m.start.toList (s ++ t) q))

variable {m : Markers} {strict : Bool} {bindings : Mapping} {s t : List Char} {a k p q : Nat}
  {f : Fault}

/-- What begins with a beginning of what is left of a text still does so with more behind it. -/
theorem isPrefix_drop_append {l : List Char} (h : l <+: s.drop a) : l <+: (s ++ t).drop a := by
  rw [List.drop_append]
  exact h.trans (List.prefix_append _ _)

/-- A marker that would end in the first text stands there or does not stand at all. -/
theorem occursAt_append_of_le {marker : List Char} (h : q + marker.length ≤ s.length) :
    OccursAt marker (s ++ t) q ↔ OccursAt marker s q := by
  rw [OccursAt, OccursAt, List.drop_append_of_le_length (by omega)]
  refine ⟨fun h' => ?_, fun h' => h'.trans (List.prefix_append _ _)⟩
  exact List.prefix_of_prefix_length_le h' (List.prefix_append _ _) (by rw [List.length_drop]; omega)

/-- A start marker that begins in the first text stands there. -/
theorem Separate.occursAt_start_iff (h : Separate m s t) (hq : q < s.length) :
    OccursAt m.start.toList (s ++ t) q ↔ OccursAt m.start.toList s q := by
  by_cases hfit : q + m.start.length ≤ s.length
  · exact occursAt_append_of_le (by rwa [String.length_toList])
  · refine ⟨fun ho => absurd ho (h q hq (by omega)), fun ho => ?_⟩
    have hlen := ho.add_length_le (Layout.start_ne_nil m)
    rw [String.length_toList] at hlen
    exact absurd hlen hfit

namespace Layout

/-- The first end marker of a text is still the first one with more behind the text. -/
theorem StopsAt.append (h : StopsAt m s a k) : StopsAt m (s ++ t) a k := by
  refine ⟨⟨h.le, isPrefix_drop_append h.occursAt⟩, fun q ⟨ha, hq⟩ => ?_⟩
  by_contra hlt
  -- An end marker that begins before the first one ends before it, and so stands in the text.
  have hlen := h.add_length_le
  refine h.not_occursAt ha (not_le.1 hlt) ((occursAt_append_of_le ?_).1 hq)
  rw [String.length_toList]
  omega

/-- Up to a place where an end marker fits into the text, end markers are those of the text. -/
theorem forall_not_stop_append_iff (hfit : q + m.stop.length ≤ s.length) :
    (∀ r, a ≤ r → r ≤ q → ¬OccursAt m.stop.toList (s ++ t) r) ↔
      ∀ r, a ≤ r → r ≤ q → ¬OccursAt m.stop.toList s r := by
  refine forall_congr' fun r => forall₂_congr fun _ hr => not_congr (occursAt_append_of_le ?_)
  rw [String.length_toList]
  omega

/-- The start marker in a placeholder that is refused is still the first one. -/
theorem NestedAt.append (h : Separate m s t) (hn : NestedAt m s a q) :
    NestedAt m (s ++ t) a q := by
  obtain ⟨⟨ha, ho, hfit, hstop⟩, hmin⟩ := hn
  have hpos := stop_length_pos m
  refine ⟨⟨ha, isPrefix_drop_append ho, ?_, (forall_not_stop_append_iff hfit).2 hstop⟩, ?_⟩
  · rw [List.length_append]
    omega
  · rintro r ⟨har, hor, -, hstopr⟩
    by_contra hlt
    have hfitr : r + m.stop.length ≤ s.length := by omega
    exact hlt (hmin ⟨har, (h.occursAt_start_iff (by omega)).1 hor, hfitr,
      (forall_not_stop_append_iff hfitr).1 hstopr⟩)

/-- A body stays the same. -/
theorem HasBody.append {body : List Char} (h : Separate m s t)
    (hb : HasBody m strict s p body) : HasBody m strict (s ++ t) p body := by
  have hlen := hb.stops.add_length_le
  have hflat := (not_nested_iff hb.stops).1 hb.flat
  refine ⟨?_, hb.stops.append, isPrefix_drop_append hb.isPrefix⟩
  refine (not_nested_iff hb.stops.append).2 fun hs q ha hk => ?_
  rw [h.occursAt_start_iff (by omega)]
  exact hflat hs q ha hk

end Layout

/-- A placeholder with the literal before it is read alike. -/
theorem Part.Lies.append {part : Part} (h : Separate m s t) (hp : part.Lies m strict s a) :
    part.Lies m strict (s ++ t) a := by
  have hlen := hp.stops.add_length_le
  refine ⟨isPrefix_drop_append hp.begins, fun q ha hq => ?_, hp.stops.append,
    fun hs q ha hq => ?_⟩
  · rw [h.occursAt_start_iff (by omega)]
    exact hp.literal q ha hq
  · rw [h.occursAt_start_iff (by omega)]
    exact hp.flat hs q ha hq

/-- How a scan reads a text is how it reads the text with more behind it. -/
theorem Division.Lies.append {d : Division} (h : Separate m s t) (hd : d.Lies m strict s a) :
    d.Lies m strict (s ++ t) a := by
  obtain ⟨ps, last⟩ := d
  induction ps generalizing a with
  | nil =>
    rw [lies_nil_iff] at hd ⊢
    refine ⟨isPrefix_drop_append hd.1, fun q ha hq => ?_⟩
    have hlen := hd.1.length_le
    rw [List.length_drop] at hlen
    rw [h.occursAt_start_iff (by omega)]
    exact hd.2 q ha hq
  | cons p ps ih =>
    rw [lies_cons_iff] at hd ⊢
    exact ⟨.append h hd.1, ih hd.2⟩

/-- A scan that gets to a placeholder of a text gets there with more behind the text. -/
theorem Opens.append (h : Separate m s t) (hp : Opens m strict bindings s p) :
    Opens m strict bindings (s ++ t) p := by
  obtain ⟨d, hd, hv, hpos, ho⟩ := hp
  exact ⟨d, .append h hd, hv, hpos, isPrefix_drop_append ho⟩

/-- A placeholder that makes a scan fail still does so with more behind the text, unless it was never
    closed. -/
theorem Stuck.append (h : Separate m s t) (hf : Stuck m strict bindings s p f)
    (hclosed : ∀ p, f ≠ .error (.unterminated p m.stop)) :
    Stuck m strict bindings (s ++ t) p f := by
  rcases hf with ⟨e, rfl, hr⟩ | ⟨rfl, body, hb, hu⟩
  · refine .inl ⟨e, rfl, ?_⟩
    cases hr with
    | nested hs hn => exact .nested hs (hn.append h)
    | unterminated hn hstop => exact absurd rfl (hclosed p)
    | missingDefault hb hp => exact .missingDefault (hb.append h) hp
    | unbound hb hq hu => exact .unbound (hb.append h) hq hu
  · exact .inr ⟨rfl, body, hb.append h, hu⟩

/-! ## The second text -/

/-- A layout from `n` characters further on. -/
def Layout.shift (n : Nat) : Layout → Layout
  | .done => .done
  | .literal c rest => .literal c (shift n rest)
  | .placeholder body rest => .placeholder body (shift n rest)
  | .broken cause => .broken (cause.shift n)

namespace Layout

theorem cutBody_shift (n opened position : Nat) (text : List Char) :
    cutBody m strict (opened + n) (position + n) text =
      (cutBody m strict opened position text).mapError (Error.shift n) := by
  induction text generalizing position with
  | nil =>
    unfold cutBody
    split
    · rfl
    · split
      · rfl
      · split <;> rfl
  | cons c text ih =>
    unfold cutBody
    split
    · rfl
    · split
      · rfl
      · split
        · rfl
        · dsimp only
          rw [Nat.add_right_comm, ih]
          cases cutBody m strict opened (position + 1) text <;> rfl

/-- What stands further on is laid out alike, with positions moved. -/
theorem ofText_shift (n position : Nat) (text : List Char) :
    ofText m strict (position + n) text = (ofText m strict position text).shift n := by
  fun_induction ofText m strict position text with
  | case1 position => rw [ofText_nil, shift]
  | case2 position c tail h ih =>
    rw [ofText_cons_of_none h, Nat.add_right_comm, ih, shift]
  | case3 position c tail inner h start cause hc =>
    rw [ofText_cons_of_some h, Nat.add_right_comm, cutBody_shift, hc]
    rfl
  | case4 position c tail inner h start body rest hc ih =>
    have hpos : position + m.start.length + n + body.length + m.stop.length =
        position + m.start.length + body.length + m.stop.length + n := by omega
    rw [ofText_cons_of_some h, Nat.add_right_comm, cutBody_shift, hc, shift, ← ih]
    exact congrArg (fun k => placeholder body (ofText m strict k rest)) hpos

/-- A body is resolved without regard to where it stands. -/
theorem shift_of_resolveBody_eq_error {body : List Char} (h : resolveBody bindings body = .error f)
    (n : Nat) : f.shift n = f := by
  rcases resolveBody_cases bindings body with ⟨v, hv⟩ | ⟨flaw, hp⟩ | ⟨hq, hu⟩ | hu
  · rw [resolveBody_of_resolves hv] at h
    cases h
  · rw [resolveBody_of_parse_eq_error hp] at h
    cases h
    rfl
  · rw [resolveBody_of_unbound hq hu] at h
    cases h
    rfl
  · rw [resolveBody_of_unwritable hu] at h
    cases h
    rfl

/-- A layout from further on is filled in with the same result, or fails further on. -/
theorem fill_shift (n : Nat) (l : Layout) :
    (l.shift n).fill bindings = (l.fill bindings).mapError (Fault.shift n) := by
  induction l with
  | done => rfl
  | literal c rest ih =>
    rw [shift, fill, fill, ih]
    cases rest.fill bindings <;> rfl
  | placeholder body rest ih =>
    rw [shift, fill, fill, ih]
    cases h : resolveBody bindings body with
    | error f =>
      have hf := shift_of_resolveBody_eq_error h n
      simp [bind, Except.bind, Except.mapError, hf]
    | ok value => cases rest.fill bindings <;> rfl
  | broken cause => rfl

end Layout

/-! ## Both texts -/

/-- Behind a text that is filled in the scan goes on with the second text as if it were alone. -/
theorem scanCounting_append {s t out : String} {n : Nat} (h : Separate m s.toList t.toList)
    (hs : scanCounting m strict bindings s = .ok (out, n)) :
    scanCounting m strict bindings (s ++ t) =
      ((scanCounting m strict bindings t).map fun p => (out ++ p.1, p.2 + n)).mapError
        (Fault.shift s.length) := by
  obtain ⟨d, hd, htext, values, hv, rfl, rfl⟩ := scanCounting_eq_ok_iff.1 hs
  have hlayout : Layout.ofText m strict s.length t.toList =
      (Layout.ofText m strict 0 t.toList).shift s.length := by
    simpa using Layout.ofText_shift s.length 0 t.toList
  rw [scanCounting, scanCounting, String.toList_append,
    Division.fill_ofText_of_lies (hd.append h) hv, htext, List.drop_left, String.length_toList,
    hlayout, Layout.fill_shift]
  cases (Layout.ofText m strict 0 t.toList).fill bindings with
  | error f => rfl
  | ok p => simp [Except.map, Except.mapError, String.ofList_append]

/-- Where no start marker goes over the border between two texts, the scan of both in a row is the
    scan of the one and then of the other: behind a result comes the result of the second text, or
    its failure with all positions moved by the length of the first text. A failure of the first
    text is that of both, unless it is that a placeholder never closes. -/
theorem run_append (m : Markers) (strict : Bool) (bindings : Mapping) (s t : String)
    (h : Separate m s.toList t.toList) :
    (∀ out, (Request.ofParts m strict bindings s).run.result = .ok out →
      (∀ out', (Request.ofParts m strict bindings t).run.result = .ok out' →
        (Request.ofParts m strict bindings (s ++ t)).run.result = .ok (out ++ out')) ∧
      ∀ f, (Request.ofParts m strict bindings t).run.result = .error f →
        (Request.ofParts m strict bindings (s ++ t)).run.result = .error (f.shift s.length)) ∧
    (∀ f, (Request.ofParts m strict bindings s).run.result = .error f →
      (∀ p, f ≠ .error (.unterminated p m.stop)) →
        (Request.ofParts m strict bindings (s ++ t)).run.result = .error f) ∧
    ∀ e : Error, (e.shift s.length).report = e.report.shift s.length := by
  simp only [Request.result_run_ofParts]
  refine ⟨fun out hs => ?_, fun f hs hclosed => ?_, fun e => e.report_shift _⟩
  · obtain ⟨n, hs⟩ := scan_eq_ok_iff.1 hs
    refine ⟨fun out' ht => ?_, fun f ht => ?_⟩
    · obtain ⟨k, ht⟩ := scan_eq_ok_iff.1 ht
      rw [scan, scanCounting_append h hs, ht]
      rfl
    · rw [scan, scanCounting_append h hs, scan_eq_error_iff.1 ht]
      rfl
  · obtain ⟨p, hp, hf⟩ := scanCounting_eq_error_iff.1 (scan_eq_error_iff.1 hs)
    rw [scan_eq_error_iff, scanCounting_eq_error_iff, String.toList_append]
    exact ⟨p, hp.append h, hf.append h hclosed⟩

/-- An end marker goes over the border, and a placeholder of the second text is refused further on.
    In the other order, its refusal is that of both. -/
theorem nested_start_moved :
    let m : Markers := ⟨"<", ">>", by decide, by decide⟩
    let bindings : Mapping := [(.str "a", .str "1")]
    let s := "<a>>>"
    let t := "><b<c>>"
    Separate m s.toList t.toList ∧ Separate m t.toList s.toList ∧
      (Request.ofParts m true bindings s).run.result = .ok "1>" ∧
      (Request.ofParts m true bindings t).run.result =
        .error (.error (.nestedStart 3 "<" ">>")) ∧
      (Request.ofParts m true bindings (s ++ t)).run.result =
        .error (.error (.nestedStart 8 "<" ">>")) ∧
      (Request.ofParts m true bindings (t ++ s)).run.result =
        .error (.error (.nestedStart 3 "<" ">>")) := by
  intro m bindings s t
  have hs : (Request.ofParts m true bindings s).run.result = .ok "1>" := by decide +kernel
  have ht : (Request.ofParts m true bindings t).run.result =
      .error (.error (.nestedStart 3 "<" ">>")) := by decide +kernel
  have hst : Separate m s.toList t.toList := by decide
  have hts : Separate m t.toList s.toList := by decide
  have hshift : Fault.shift s.length (.error (.nestedStart 3 "<" ">>")) =
      .error (.nestedStart 8 "<" ">>") := by decide
  have hmoved := ((run_append m true bindings s t hst).1 _ hs).2 _ ht
  have hkept := (run_append m true bindings t s hts).2.1 _ ht (by simp)
  exact ⟨hst, hts, hs, ht, hshift ▸ hmoved, hkept⟩

end Stencil
