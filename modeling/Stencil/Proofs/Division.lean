import Stencil.Proofs.Occurrence

/-!
# Divisions of a text

A text written as literals and placeholders in turn, and when this is how a scan reads it: no start
marker begins in a literal, every body ends at the first end marker behind its start, and in strict
mode no start marker begins in a body. All of this is said by positions in the whole text.

* `Division.Lies`: a division is how a scan reads a text from a position on;
* `Division.ofText_of_lies`: the layout of a text is that of its division;
* `Division.eq_of_lies`: a text has one division at most;
* `Division.exists_lies`: a text has a division up to its end, or up to a placeholder that does not
  close or whose body is refused.
-/

namespace Stencil

/-- A text that starts with two texts in a row starts with the first one, and then goes on with the
    second one. -/
theorem append_isPrefix_iff {α : Type} {l₁ l₂ l : List α} :
    l₁ ++ l₂ <+: l ↔ l₁ <+: l ∧ l₂ <+: l.drop l₁.length := by
  constructor
  · rintro ⟨rest, rfl⟩
    exact ⟨⟨l₂ ++ rest, by simp⟩, ⟨rest, by simp⟩⟩
  · rintro ⟨⟨rest, rfl⟩, h⟩
    rw [List.drop_left] at h
    exact (List.prefix_append_right_inj l₁).2 h

/-! ## Layouts, one step at a time -/

namespace Layout

open Identifier (dropFront? dropFront?_eq_some_iff dropFront?_eq_none_iff)

variable {m : Markers} {strict : Bool} {text : List Char} {p k : Nat}

theorem ofText_nil : ofText m strict p [] = .done := by
  unfold ofText
  rfl

section Cons

variable {c : Char} {tail inner : List Char}

theorem ofText_cons_of_none (h : dropFront? m.start.toList (c :: tail) = none) :
    ofText m strict p (c :: tail) = .literal c (ofText m strict (p + 1) tail) := by
  rw [ofText]
  split
  · rfl
  · next hs => rw [h] at hs; cases hs

theorem ofText_cons_of_some (h : dropFront? m.start.toList (c :: tail) = some inner) :
    ofText m strict p (c :: tail) =
      match cutBody m strict p (p + m.start.length) inner with
      | .error cause => .broken cause
      | .ok (body, rest) =>
        .placeholder body
          (ofText m strict (p + m.start.length + body.length + m.stop.length) rest) := by
  rw [ofText]
  split
  · next hs => rw [h] at hs; cases hs
  · next inner' hs =>
    obtain rfl := Option.some.inj (h.symm.trans hs)
    dsimp only
    split
    · next cause hc => rw [hc]
    · next body rest hc => rw [hc]

end Cons

/-- A character where no placeholder opens stands for itself. -/
theorem ofText_of_not_occursAt (hp : p < text.length) (h : ¬OccursAt m.start.toList text p) :
    ofText m strict p (text.drop p) =
      .literal text[p] (ofText m strict (p + 1) (text.drop (p + 1))) := by
  have hd := dropFront?_eq_none_iff.2 h
  rw [List.drop_eq_getElem_cons hp] at hd ⊢
  exact ofText_cons_of_none hd

/-- Where a placeholder opens, its body is cut out and the layout goes on behind it. -/
theorem ofText_of_occursAt (h : OccursAt m.start.toList text p) :
    ofText m strict p (text.drop p) =
      match cutBody m strict p (p + m.start.length) (text.drop (p + m.start.length)) with
      | .error cause => .broken cause
      | .ok (body, rest) =>
        .placeholder body
          (ofText m strict (p + m.start.length + body.length + m.stop.length) rest) := by
  have hlen := h.add_length_le (start_ne_nil m)
  have hpos := List.length_pos_iff.2 (start_ne_nil m)
  have hp : p < text.length := by omega
  have hd := dropFront?_eq_some_iff.2 h.drop_eq
  rw [String.length_toList] at hd
  rw [List.drop_eq_getElem_cons hp] at hd ⊢
  exact ofText_cons_of_some hd

/-- The bodies of the placeholders of a layout. -/
def bodies : Layout → List (List Char)
  | .done => []
  | .literal _ rest => bodies rest
  | .placeholder body rest => body :: bodies rest
  | .broken _ => []

end Layout

/-! ## Divisions -/

/-- A literal, and the body of the placeholder behind it. -/
structure Part where
  literal : List Char
  body : List Char
  deriving DecidableEq

/-- Literals and placeholders in turn. -/
structure Division where
  /-- The placeholders, each with the literal before it. -/
  parts : List Part
  /-- The literal at the end. -/
  last : List Char
  deriving DecidableEq

/-- A literal and a placeholder as they are written. -/
def Part.written (m : Markers) (p : Part) : List Char :=
  p.literal ++ m.start.toList ++ p.body ++ m.stop.toList

/-- A literal and the placeholder behind it are how a scan reads a text from `a` on. -/
structure Part.Lies (m : Markers) (strict : Bool) (text : List Char) (a : Nat) (p : Part) :
    Prop where
  begins : p.written m <+: text.drop a
  literal : ∀ q, a ≤ q → q < a + p.literal.length → ¬OccursAt m.start.toList text q
  stops : Layout.StopsAt m text (a + p.literal.length + m.start.length)
    (a + p.literal.length + m.start.length + p.body.length)
  flat : strict = true → ∀ q, a + p.literal.length + m.start.length ≤ q →
    q < a + p.literal.length + m.start.length + p.body.length → ¬OccursAt m.start.toList text q

namespace Division

/-- A division as it is written. -/
def written (m : Markers) (d : Division) : List Char := d.parts.flatMap (Part.written m) ++ d.last

/-- Where the literals of a division that is written from `a` on begin and end. -/
def literals (m : Markers) (a : Nat) : List Part → List Char → List (Nat × Nat)
  | [], last => [(a, a + last.length)]
  | p :: ps, last => (a, a + p.literal.length) :: literals m (a + (p.written m).length) ps last

/-- Where the bodies of a division that is written from `a` on begin and end. -/
def bodies (m : Markers) (a : Nat) : List Part → List (Nat × Nat)
  | [] => []
  | p :: ps =>
    let start := a + p.literal.length + m.start.length
    (start, start + p.body.length) :: bodies m (a + (p.written m).length) ps

/-- A division is how a scan reads a text from `a` on, as far as the division goes. -/
structure Lies (m : Markers) (strict : Bool) (text : List Char) (a : Nat) (d : Division) :
    Prop where
  /-- The text goes on at `a` as the division is written. -/
  begins : d.written m <+: text.drop a
  /-- No start marker begins in a literal. -/
  literal : ∀ s ∈ literals m a d.parts d.last, ∀ q, s.1 ≤ q → q < s.2 →
    ¬OccursAt m.start.toList text q
  /-- A body ends at the first end marker behind its start. -/
  stops : ∀ s ∈ bodies m a d.parts, Layout.StopsAt m text s.1 s.2
  /-- In strict mode no start marker begins in a body. -/
  flat : strict = true → ∀ s ∈ bodies m a d.parts, ∀ q, s.1 ≤ q → q < s.2 →
    ¬OccursAt m.start.toList text q

/-- The layout of a division with something behind it. -/
def layout (d : Division) (rest : Layout) : Layout :=
  d.parts.foldr (fun p r => p.literal.foldr .literal (.placeholder p.body r))
    (d.last.foldr .literal rest)

variable {m : Markers} {strict : Bool} {text : List Char} {a : Nat} {p : Part} {ps : List Part}
  {last : List Char} {d e : Division}

theorem written_nil : written m ⟨[], last⟩ = last := rfl

theorem written_cons : written m ⟨p :: ps, last⟩ = p.written m ++ written m ⟨ps, last⟩ := by
  simp [written]

theorem length_part : (p.written m).length =
    p.literal.length + m.start.length + p.body.length + m.stop.length := by
  simp only [Part.written, List.length_append, String.length_toList]

theorem length_part_pos (m : Markers) (p : Part) : 0 < (p.written m).length := by
  have := Layout.stop_length_pos m
  rw [length_part]
  omega

/-- A division with a placeholder in front is how a scan reads a text if the placeholder is, and the
    rest is behind it. -/
theorem lies_cons_iff : Lies m strict text a ⟨p :: ps, last⟩ ↔
    p.Lies m strict text a ∧ Lies m strict text (a + (p.written m).length) ⟨ps, last⟩ := by
  constructor
  · rintro ⟨hb, hl, hs, hf⟩
    rw [written_cons, append_isPrefix_iff, List.drop_drop] at hb
    simp only [literals, bodies, List.forall_mem_cons] at hl hs hf
    exact ⟨⟨hb.1, hl.1, hs.1, fun h => (hf h).1⟩, ⟨hb.2, hl.2, hs.2, fun h => (hf h).2⟩⟩
  · rintro ⟨⟨hb, hl, hs, hf⟩, ⟨hb', hl', hs', hf'⟩⟩
    refine ⟨?_, ?_, ?_, fun h => ?_⟩
    · rw [written_cons, append_isPrefix_iff, List.drop_drop]
      exact ⟨hb, hb'⟩
    · exact List.forall_mem_cons.2 ⟨hl, hl'⟩
    · exact List.forall_mem_cons.2 ⟨hs, hs'⟩
    · exact List.forall_mem_cons.2 ⟨hf h, hf' h⟩

/-- A division without placeholders is a literal. -/
theorem lies_nil_iff : Lies m strict text a ⟨[], last⟩ ↔ last <+: text.drop a ∧
    ∀ q, a ≤ q → q < a + last.length → ¬OccursAt m.start.toList text q := by
  constructor
  · rintro ⟨hb, hl, -, -⟩
    exact ⟨hb, hl (a, a + last.length) (List.mem_singleton_self _)⟩
  · rintro ⟨hb, hl⟩
    refine ⟨hb, fun s hs => ?_, fun s hs => absurd hs List.not_mem_nil,
      fun _ s hs => absurd hs List.not_mem_nil⟩
    rw [literals, List.mem_singleton] at hs
    subst hs
    exact hl

end Division

/-! ## The layout of a division -/

namespace Part.Lies

variable {m : Markers} {strict : Bool} {text : List Char} {a : Nat} {p : Part}

/-- The placeholder opens behind the literal. -/
theorem occursAt (h : p.Lies m strict text a) :
    OccursAt m.start.toList text (a + p.literal.length) := by
  have hb := h.begins
  rw [Part.written, List.append_assoc, List.append_assoc, append_isPrefix_iff,
    append_isPrefix_iff, List.drop_drop] at hb
  exact hb.2.1

/-- The body stands behind the start marker. -/
theorem body_isPrefix (h : p.Lies m strict text a) :
    p.body <+: text.drop (a + p.literal.length + m.start.length) := by
  have hb := h.begins
  rw [Part.written, List.append_assoc, List.append_assoc, append_isPrefix_iff,
    append_isPrefix_iff, append_isPrefix_iff, List.drop_drop, List.drop_drop,
    String.length_toList] at hb
  exact hb.2.2.1

theorem literal_isPrefix (h : p.Lies m strict text a) : p.literal <+: text.drop a := by
  have hb := h.begins
  rw [Part.written, List.append_assoc, List.append_assoc, append_isPrefix_iff] at hb
  exact hb.1

/-- The body is that of the placeholder. -/
theorem hasBody (h : p.Lies m strict text a) :
    Layout.HasBody m strict text (a + p.literal.length) p.body :=
  ⟨(Layout.not_nested_iff h.stops).2 h.flat, h.stops, h.body_isPrefix⟩

/-- The literal by itself is how the text is read. -/
theorem lies_literal (h : p.Lies m strict text a) : Division.Lies m strict text a ⟨[], p.literal⟩ :=
  Division.lies_nil_iff.2 ⟨h.literal_isPrefix, h.literal⟩

/-- A literal in which no placeholder opens, with a placeholder that has a body behind it. -/
theorem ofBody {l body : List Char} (hl : l <+: text.drop a)
    (hfree : ∀ q, a ≤ q → q < a + l.length → ¬OccursAt m.start.toList text q)
    (ho : OccursAt m.start.toList text (a + l.length))
    (hb : Layout.HasBody m strict text (a + l.length) body) :
    Part.Lies m strict text a ⟨l, body⟩ := by
  refine ⟨?_, hfree, hb.stops, (Layout.not_nested_iff hb.stops).1 hb.flat⟩
  rw [Part.written, List.append_assoc, List.append_assoc, append_isPrefix_iff,
    append_isPrefix_iff, append_isPrefix_iff, List.drop_drop, List.drop_drop, List.drop_drop,
    String.length_toList]
  exact ⟨hl, ho, hb.isPrefix, hb.stops.occursAt⟩

/-- What is written as a placeholder lies in the text. -/
theorem add_length_le (h : p.Lies m strict text a) :
    a + (p.written m).length ≤ text.length := by
  have hs := h.stops.add_length_le
  rw [Division.length_part]
  omega

end Part.Lies

namespace Layout

variable {m : Markers} {strict : Bool} {text : List Char} {a : Nat} {p : Part}

/-- Characters where no placeholder opens stand for themselves. -/
theorem ofText_of_literal {l : List Char} (hl : l <+: text.drop a)
    (hfree : ∀ q, a ≤ q → q < a + l.length → ¬OccursAt m.start.toList text q) :
    ofText m strict a (text.drop a) =
      l.foldr .literal (ofText m strict (a + l.length) (text.drop (a + l.length))) := by
  induction l generalizing a with
  | nil => rfl
  | cons c l ih =>
    rw [List.length_cons] at hfree
    have ha : a < text.length := by
      have := hl.length_le
      rw [List.length_cons, List.length_drop] at this
      omega
    rw [List.drop_eq_getElem_cons ha, List.cons_prefix_cons] at hl
    rw [ofText_of_not_occursAt ha (hfree a le_rfl (by omega)),
      ih hl.2 fun q hq hq' => hfree q (by omega) (by omega), ← hl.1, List.length_cons,
      List.foldr_cons, Nat.add_right_comm, Nat.add_assoc]

/-- A literal with a placeholder behind it. -/
theorem ofText_of_part (h : p.Lies m strict text a) :
    ofText m strict a (text.drop a) =
      p.literal.foldr .literal (.placeholder p.body
        (ofText m strict (a + (p.written m).length) (text.drop (a + (p.written m).length)))) := by
  rw [ofText_of_literal h.literal_isPrefix h.literal, ofText_of_occursAt h.occursAt,
    h.hasBody.cutBody_eq, Division.length_part]
  simp only [Nat.add_assoc]

end Layout

namespace Division

variable {m : Markers} {strict : Bool} {text : List Char} {a : Nat} {d e : Division}

/-- The layout of a text is that of its division, with the layout of what is behind it. -/
theorem ofText_of_lies (h : d.Lies m strict text a) :
    Layout.ofText m strict a (text.drop a) =
      d.layout (Layout.ofText m strict (a + (d.written m).length)
        (text.drop (a + (d.written m).length))) := by
  obtain ⟨ps, last⟩ := d
  induction ps generalizing a with
  | nil =>
    rw [lies_nil_iff] at h
    exact Layout.ofText_of_literal h.1 h.2
  | cons p ps ih =>
    rw [lies_cons_iff] at h
    rw [Layout.ofText_of_part h.1, ih h.2, written_cons, List.length_append, Nat.add_assoc]
    rfl

/-! ## Uniqueness -/

/-- A division may end at a position: the text ends there, or a placeholder opens. -/
def MayEnd (m : Markers) (text : List Char) (k : Nat) : Prop :=
  k = text.length ∨ OccursAt m.start.toList text k

/-- A literal goes no further than another one that may end. -/
theorem length_literal_le {l l' : List Char} (hend : MayEnd m text (a + l.length))
    (h : Lies m strict text a ⟨[], l'⟩) : l'.length ≤ l.length := by
  obtain ⟨hb, hfree⟩ := lies_nil_iff.1 h
  rcases hend with hend | ho
  · have hlen := hb.length_le
    rw [List.length_drop] at hlen
    omega
  · by_contra hlt
    exact hfree _ (Nat.le_add_right a _) (by omega) ho

/-- Two literals that may end are the same. -/
theorem literal_unique {l l' : List Char} (h : Lies m strict text a ⟨[], l⟩)
    (h' : Lies m strict text a ⟨[], l'⟩) (hend : MayEnd m text (a + l.length))
    (hend' : MayEnd m text (a + l'.length)) : l = l' :=
  Layout.eq_of_isPrefix (lies_nil_iff.1 h).1 (lies_nil_iff.1 h').1
    (le_antisymm (length_literal_le hend' h) (length_literal_le hend h'))

/-- A placeholder with the literal before it is read in one way. -/
theorem part_unique {q : Part} (hp : p.Lies m strict text a) (hq : q.Lies m strict text a) :
    p = q := by
  have hlit := literal_unique hp.lies_literal hq.lies_literal (.inr hp.occursAt) (.inr hq.occursAt)
  have hbody := hp.hasBody.unique (hlit ▸ hq.hasBody)
  obtain ⟨pl, pb⟩ := p
  obtain ⟨ql, qb⟩ := q
  dsimp only at hlit hbody
  rw [hlit, hbody]

/-- Two divisions from the same position on are the same, or a placeholder of one of them opens where
    the other one ends. -/
theorem eq_or_hasBody (hd : d.Lies m strict text a) (he : e.Lies m strict text a)
    (hd' : MayEnd m text (a + (d.written m).length))
    (he' : MayEnd m text (a + (e.written m).length)) :
    d = e ∨ (∃ p ∈ e.parts, Layout.HasBody m strict text (a + (d.written m).length) p.body) ∨
      ∃ p ∈ d.parts, Layout.HasBody m strict text (a + (e.written m).length) p.body := by
  obtain ⟨ps, last⟩ := d
  obtain ⟨qs, last'⟩ := e
  induction ps generalizing a qs with
  | nil =>
    cases qs with
    | nil => exact .inl (by rw [literal_unique hd he hd' he'])
    | cons q qs =>
      have hq := (lies_cons_iff.1 he).1
      have hlit := literal_unique hd hq.lies_literal hd' (.inr hq.occursAt)
      exact .inr (.inl ⟨q, List.mem_cons_self, by rw [written_nil, hlit]; exact hq.hasBody⟩)
  | cons p ps ih =>
    cases qs with
    | nil =>
      have hp := (lies_cons_iff.1 hd).1
      have hlit := literal_unique he hp.lies_literal he' (.inr hp.occursAt)
      exact .inr (.inr ⟨p, List.mem_cons_self, by rw [written_nil, hlit]; exact hp.hasBody⟩)
    | cons q qs =>
      rw [lies_cons_iff] at hd he
      obtain rfl := part_unique hd.1 he.1
      simp only [written_cons, List.length_append, ← Nat.add_assoc] at hd' he' ⊢
      rcases ih hd.2 hd' _ he.2 he' with h | ⟨x, hx, h⟩ | ⟨x, hx, h⟩
      · obtain ⟨hps, hlast⟩ := Division.mk.inj h
        exact .inl (by rw [hps, hlast])
      · exact .inr (.inl ⟨x, List.mem_cons_of_mem _ hx, h⟩)
      · exact .inr (.inr ⟨x, List.mem_cons_of_mem _ hx, h⟩)

/-- A text has one division at most. -/
theorem eq_of_lies (hd : d.Lies m strict text 0) (he : e.Lies m strict text 0)
    (hd' : d.written m = text) (he' : e.written m = text) : d = e := by
  have hend : MayEnd m text (0 + text.length) := .inl (Nat.zero_add _)
  rcases eq_or_hasBody hd he (hd'.symm ▸ hend) (he'.symm ▸ hend) with h | ⟨_, -, h⟩ | ⟨_, -, h⟩
  · exact h
  · have := h.lt_length
    rw [hd'] at this
    omega
  · have := h.lt_length
    rw [he'] at this
    omega

/-! ## Existence -/

/-- Before the placeholder that opens first from `a` on there is a literal. -/
theorem exists_literal (strict : Bool) (h : ∃ q, a ≤ q ∧ OccursAt m.start.toList text q) :
    ∃ l, Lies m strict text a ⟨[], l⟩ ∧ OccursAt m.start.toList text (a + l.length) := by
  obtain ⟨k, ⟨hle, hk⟩, hmin⟩ := exists_isLeast h
  have hlen := hk.add_length_le (Layout.start_ne_nil m)
  have htake : ((text.drop a).take (k - a)).length = k - a :=
    List.length_take_of_le (by rw [List.length_drop]; omega)
  refine ⟨(text.drop a).take (k - a), lies_nil_iff.2 ⟨List.take_prefix _ _, ?_⟩, ?_⟩
  · intro q ha hq ho
    have := hmin ⟨ha, ho⟩
    omega
  · rwa [htake, Nat.add_sub_cancel' hle]

/-- From any position on a text has a division up to its end, or up to the first placeholder that
    does not close or whose body is not good. -/
theorem exists_lies (m : Markers) (strict : Bool) (text : List Char) (good : List Char → Prop)
    (a : Nat) (ha : a ≤ text.length) :
    ∃ d : Division, d.Lies m strict text a ∧ (∀ p ∈ d.parts, good p.body) ∧
      (a + (d.written m).length = text.length ∨
        ∃ k, k = a + (d.written m).length ∧ OccursAt m.start.toList text k ∧
          (Layout.Nested m strict text (k + m.start.length) ∨
            (¬Layout.Nested m strict text (k + m.start.length) ∧
              ∀ q, k + m.start.length ≤ q → ¬OccursAt m.stop.toList text q) ∨
            ∃ body, Layout.HasBody m strict text k body ∧ ¬good body)) := by
  induction hn : text.length - a using Nat.strongRecOn generalizing a with
  | ind n ih =>
    by_cases hex : ∃ q, a ≤ q ∧ OccursAt m.start.toList text q
    · obtain ⟨l, hl, ho⟩ := exists_literal strict hex
      have hnone : ∀ p ∈ (⟨[], l⟩ : Division).parts, good p.body :=
        fun p hp => absurd hp List.not_mem_nil
      rcases Layout.nested_or_stops_or_none m strict text (a + l.length + m.start.length) with
        hnest | ⟨hnest, e, he⟩ | hstop
      · exact ⟨_, hl, hnone, .inr ⟨_, rfl, ho, .inl hnest⟩⟩
      · obtain ⟨body, hbody⟩ := he.exists_hasBody hnest
        by_cases hgood : good body
        · -- The placeholder closes and its body is good: go on behind it.
          have hlit := lies_nil_iff.1 hl
          have hp := Part.Lies.ofBody hlit.1 hlit.2 ho hbody
          have hend := hp.add_length_le
          have hpos := length_part_pos m ⟨l, body⟩
          obtain ⟨d, hd, hgd, hrest⟩ := ih _ (by omega) _ hend rfl
          refine ⟨⟨_ :: d.parts, d.last⟩, lies_cons_iff.2 ⟨hp, hd⟩,
            List.forall_mem_cons.2 ⟨hgood, hgd⟩, ?_⟩
          rw [written_cons, List.length_append, ← Nat.add_assoc]
          exact hrest
        · exact ⟨_, hl, hnone, .inr ⟨_, rfl, ho, .inr (.inr ⟨body, hbody, hgood⟩)⟩⟩
      · exact ⟨_, hl, hnone, .inr ⟨_, rfl, ho, .inr (.inl hstop)⟩⟩
    · refine ⟨⟨[], text.drop a⟩, lies_nil_iff.2 ⟨List.prefix_rfl, fun q hq _ ho => hex ⟨q, hq, ho⟩⟩,
        fun p hp => absurd hp List.not_mem_nil, .inl ?_⟩
      rw [written_nil, List.length_drop]
      omega

end Division

end Stencil
