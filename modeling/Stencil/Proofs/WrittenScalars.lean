import Stencil.Proofs.ScalarExtent

/-!
# How scalars are written

A scalar is written so that its end can be found. A plain one is words with gaps between them, and stays
so when its lines are folded; between quotes, every quote of the text itself is written so that it is
not taken for the closing one.

* `spaced_folded`: a plain scalar is words with gaps between them;
* `quotedBody_folded`, `quotedBody_escaped`: the two kinds of quoted scalars.
-/

namespace Stencil.Yaml

/-! ## Shown characters -/

theorem ne_carriageReturn_of_isShown {c : Char} (h : isShown c) : c ≠ '\r' := by
  rintro rfl
  exact absurd h (by decide)

/-- A blank is the only gap that is shown and does not break lines. -/
theorem isGap_eq_false {c : Char} (hshown : isShown c) (hbreak : isShownBreak c = false) (hc : c ≠ ' ') :
    isGap c = false := by
  have hreturn := ne_carriageReturn_of_isShown hshown
  have htab : c ≠ '\t' := by
    rintro rfl
    exact absurd hshown (by decide)
  have hend : c ≠ endMark := by
    rintro rfl
    exact absurd hshown (by decide)
  have hbreak : isBreak c = false := by simpa [isShownBreak, hreturn] using hbreak
  simp [isGap, isSpaceOrEnd, isLineEnd, htab, hc, hend, hbreak]

theorem isShownBreak_eq_false {c : Char} (h : isGap c = false) : isShownBreak c = false := by
  rw [isShownBreak, isBreak_of_not_isGap h, Bool.and_false]

/-! ## Words -/

theorem hasInnerMark_append {last : Char} {u v : List Char} (hne : u ≠ [])
    (h : hasInnerMark last (u ++ v) = false) : hasInnerMark (u.getLast hne) v = false := by
  induction u generalizing last with
  | nil => exact absurd rfl hne
  | cons c u ih =>
    rw [List.cons_append, hasInnerMark, Bool.or_eq_false_iff] at h
    cases u with
    | nil => exact h.2
    | cons d u =>
      rw [List.getLast_cons (List.cons_ne_nil d u)]
      exact ih _ h.2

theorem endsHere_eq_false_of_hasInnerMark {last : Char} {u v : List Char}
    (h : hasInnerMark last (u ++ ':' :: v) = false) : endsHere v = false := by
  induction u generalizing last with
  | nil =>
    rw [List.nil_append, hasInnerMark, Bool.or_eq_false_iff, Bool.or_eq_false_iff] at h
    simpa using h.1.1
  | cons c u ih =>
    rw [List.cons_append, hasInnerMark, Bool.or_eq_false_iff] at h
    exact ih h.2

/-- Blanks, as they stand between the words of a text. -/
def IsBlanks (g : List Char) : Prop := ∃ n, g = blanks (n + 1)

theorem exists_blanks (cs : List Char) :
    ∃ n rest, cs = blanks n ++ rest ∧ ∀ c ∈ rest.head?, c ≠ ' ' := by
  obtain ⟨g, rest, rfl, hg, hrest⟩ := exists_span (· == ' ') cs
  refine ⟨g.length, rest, ?_, fun c hc => by simpa using hrest c hc⟩
  rw [blanks, ← List.eq_replicate_iff.2 ⟨rfl, fun c hc => eq_of_beq (hg c hc)⟩]

/-- A colon at the end of a word, with a gap behind it, would be a mark. -/
theorem isWord_of_not_hasInnerMark {w r : List Char} {last : Char} (hw : ∀ c ∈ w, isGap c = false)
    (hends : endsHere r) (hmark : hasInnerMark last (w ++ r) = false) : IsWord w := by
  refine ⟨hw, fun hcolon => ?_⟩
  obtain ⟨u, rfl⟩ := List.getLast?_eq_some_iff.1 hcolon
  rw [List.append_assoc, List.singleton_append] at hmark
  rw [endsHere_eq_false_of_hasInnerMark hmark] at hends
  cases hends

/-- A number sign behind a blank would be one, too. -/
theorem hasInnerMark_behind_blanks {u rest : List Char} {last : Char} {n : Nat}
    (h : hasInnerMark last (u ++ (blanks (n + 1) ++ rest)) = false) :
    hasInnerMark ' ' rest = false ∧ rest.head? ≠ some '#' := by
  rw [blanks, List.replicate_succ', List.append_assoc, ← List.append_assoc, ← List.append_assoc] at h
  have hrest := hasInnerMark_append (List.concat_ne_nil ' ' (u ++ List.replicate n ' ')) h
  rw [List.getLast_concat] at hrest
  refine ⟨hrest, fun hhash => ?_⟩
  obtain ⟨rest, rfl⟩ := List.head?_eq_some_iff.1 hhash
  simp [hasInnerMark, isGap, isSpaceOrEnd] at hrest

/-- A text without marks that begins and ends in words is words with blanks between them. -/
theorem spaced_of_not_hasInnerMark {cs : List Char} {last : Char} (hne : cs ≠ [])
    (hhead : cs.head? ≠ some ' ') (hlast : cs.getLast? ≠ some ' ')
    (hgap : ∀ c ∈ cs, c ≠ ' ' → isGap c = false) (hmark : hasInnerMark last cs = false) :
    Spaced IsBlanks cs := by
  induction hn : cs.length using Nat.strong_induction_on generalizing cs last with
  | _ n ih =>
    subst hn
    -- A word `w` up to the first blank, the blanks behind it, and the rest from the next word on.
    obtain ⟨w, r, rfl, hw, hr⟩ := exists_span (· != ' ') cs
    have hwne : w ≠ [] := by
      rintro rfl
      obtain ⟨c, r, rfl⟩ := List.exists_cons_of_ne_nil hne
      exact hhead (congrArg some (by simpa using hr c rfl))
    have hends : endsHere r := by
      cases r with
      | nil => rfl
      | cons c r =>
        rw [show c = ' ' by simpa using hr c rfl]
        rfl
    have hword : IsWord w := isWord_of_not_hasInnerMark
      (fun c hc => hgap c (List.mem_append_left _ hc) (by simpa using hw c hc)) hends hmark
    obtain ⟨n, rest, rfl, hrest⟩ := exists_blanks r
    by_cases hnil : rest = []
    · subst hnil
      cases n with
      | zero =>
        rw [blanks, List.replicate_zero, List.append_nil, List.append_nil]
        exact .word hword hwne
      | succ n =>
        refine absurd ?_ hlast
        rw [List.append_nil, blanks, List.replicate_succ', ← List.append_assoc, List.getLast?_concat]
    · cases n with
      | zero =>
        obtain ⟨c, rest, rfl⟩ := List.exists_cons_of_ne_nil hnil
        exact absurd (by simpa using hr c rfl) (hrest c rfl)
      | succ n =>
        obtain ⟨hmark', hhash⟩ := hasInnerMark_behind_blanks hmark
        refine .more hword hwne ⟨n, rfl⟩ hhash (ih rest.length ?_ hnil ?_ ?_ ?_ hmark' rfl)
        · simp [blanks]
          omega
        · exact fun hblank => hrest ' ' hblank rfl
        · intro hblank
          exact hlast (by rw [List.getLast?_append, List.getLast?_append, hblank]; rfl)
        · exact fun d hd => hgap d (by simp [hd])

/-! ## Folded lines -/

namespace Frame

variable {f : Frame} {cs : List Char}

theorem folded_char {c : Char} (hbreak : isShownBreak c = false) (hc : c ≠ ' ') (last : Char)
    (column : Nat) (r : List Char) :
    f.folded last column (c :: r) = c :: f.folded c (column + 1) r := by
  simp [folded, hbreak, hc]

theorem folded_of_not_isGap {c : Char} (hc : isGap c = false) (last : Char) (column : Nat)
    (r : List Char) : f.folded last column (c :: r) = c :: f.folded c (column + 1) r :=
  folded_char (isShownBreak_eq_false hc) (ne_of_not_isGap hc (by decide)) last column r

/-- No line is folded in a word. -/
theorem folded_append_word {w : List Char} (hw : ∀ c ∈ w, isGap c = false) (hne : w ≠ []) (last : Char)
    (column : Nat) (r : List Char) :
    f.folded last column (w ++ r) = w ++ f.folded (w.getLast hne) (column + w.length) r := by
  induction w generalizing last column with
  | nil => exact absurd rfl hne
  | cons c w ih =>
    rw [List.forall_mem_cons] at hw
    rw [List.cons_append, folded_of_not_isGap hw.1]
    cases w with
    | nil => rfl
    | cons d w =>
      rw [ih hw.2 (List.cons_ne_nil d w), List.getLast_cons (List.cons_ne_nil d w)]
      simp [Nat.add_comm 1, Nat.add_assoc]

/-- Behind a blank, blanks stay. -/
theorem folded_blanks (column n : Nat) (r : List Char) :
    f.folded ' ' column (blanks n ++ r) = blanks n ++ f.folded ' ' (column + n) r := by
  induction n generalizing column with
  | zero => rfl
  | succ n ih =>
    have hstep (r : List Char) :
        f.folded ' ' column (' ' :: r) = ' ' :: f.folded ' ' (column + 1) r := by
      have hbreak : isShownBreak ' ' = false := by decide
      simp [folded, hbreak]
    rw [blanks, List.replicate_succ, List.cons_append, hstep]
    refine (congrArg _ (ih (column + 1))).trans ?_
    rw [Nat.add_right_comm, Nat.add_assoc]
    rfl

/-- Between words, blanks stay, or a single one becomes a line break. -/
theorem exists_folded_gap {c last : Char} (hc : c ≠ ' ') (hlast : last ≠ ' ') (column n : Nat)
    (r : List Char) : ∃ g last' column', IsWordGap f.indent g ∧
      f.folded last column (blanks (n + 1) ++ c :: r) = g ++ f.folded last' column' (c :: r) := by
  have hbreak : isShownBreak ' ' = false := by decide
  rw [blanks, List.replicate_succ, List.cons_append]
  cases n with
  | zero =>
    by_cases hfolds : f.folds ∧ width < column
    · refine ⟨newLine f.indent, ' ', f.indent, .inr rfl, ?_⟩
      simp [folded, hbreak, hc, hlast, hfolds]
    · refine ⟨blanks 1, ' ', column + 1, .inl ⟨0, rfl⟩, ?_⟩
      simp [folded, hbreak, hfolds, blanks]
  | succ n =>
    have hstep : f.folded last column (' ' :: (List.replicate (n + 1) ' ' ++ c :: r)) =
        ' ' :: f.folded ' ' (column + 1) (blanks (n + 1) ++ c :: r) := by
      simp [folded, hbreak, blanks, List.replicate_succ]
    refine ⟨blanks (n + 2), ' ', column + 1 + (n + 1), .inl ⟨n + 1, rfl⟩, ?_⟩
    rw [hstep, folded_blanks]
    rfl

/-- Words stay words when lines are folded. -/
theorem spaced_folded (h : Spaced IsBlanks cs) (last : Char) (column : Nat) :
    Spaced (IsWordGap f.indent) (f.folded last column cs) := by
  induction h generalizing last column with
  | @word w hw hne =>
    have hfolded := f.folded_append_word hw.1 hne last column []
    rw [List.append_nil, folded, List.append_nil] at hfolded
    rw [hfolded]
    exact .word hw hne
  | @more w g rest hw hne hg hmark hrest ih =>
    obtain ⟨n, rfl⟩ := hg
    obtain ⟨c, v, more, rfl, hv⟩ := hrest.exists_word
    have hc := hv.1 c List.mem_cons_self
    obtain ⟨g, last', column', hg, hfolded⟩ := f.exists_folded_gap (ne_of_not_isGap hc (by decide))
      (ne_of_not_isGap (hw.1 _ (List.getLast_mem hne)) (by decide)) (column + w.length) n (v ++ more)
    rw [f.folded_append_word hw.1 hne, List.cons_append, hfolded]
    refine .more hw hne hg ?_ (ih last' column')
    rw [folded_of_not_isGap hc]
    exact hmark

end Frame

/-- A plain scalar that is not empty is words with gaps between them. -/
theorem spaced_write_plain {cs : List Char} (h : Style.allowsPlain cs) (hne : cs ≠ []) (f : Frame)
    (column : Nat) : Spaced (IsWordGap f.indent) (Style.plain.write f column cs) := by
  simp only [Style.allowsPlain, Bool.and_eq_true] at h
  obtain ⟨⟨⟨⟨hhead, hlast⟩, hshown⟩, hbreak⟩, hmark⟩ := h
  rw [Bool.not_eq_true', List.any_eq_false] at hbreak
  obtain ⟨c, cs, rfl⟩ := List.exists_cons_of_ne_nil hne
  have hinner : hasInnerMark c (c :: cs) = false := by
    rw [Bool.not_eq_true', hasMark] at hmark
    simp only [Bool.or_eq_false_iff, List.contains_eq_mem] at hmark
    obtain ⟨⟨⟨-, hindicator⟩, hsingle⟩, hinner⟩ := hmark
    have hhash : c ≠ '#' := by
      rintro rfl
      exact absurd hindicator (by decide)
    have hcolon : (c == ':' && endsHere cs) = false := by
      by_cases hc : c = ':'
      · subst hc
        simpa using hsingle
      · simp [hc]
    simp [hasInnerMark, hcolon, hhash, hinner]
  refine f.spaced_folded (spaced_of_not_hasInnerMark hne ?_ ?_ ?_ hinner) ' ' column
  · simpa using hhead
  · intro hblank
    rw [hblank] at hlast
    exact absurd hlast (by decide)
  · exact fun d hd => isGap_eq_false (List.all_eq_true.1 hshown d hd) (eq_false_of_ne_true (hbreak d hd))

theorem allowsPlain_of_ofText {plainTag : Bool} {cs : List Char}
    (h : Style.ofText plainTag cs = .plain) : Style.allowsPlain cs := by
  by_contra hplain
  rw [Style.ofText] at h
  simp only [hplain, Bool.and_false, Bool.false_eq_true, if_false] at h
  split at h <;> cases h

/-! ## The first characters of plain scalars -/

/-- The beginning of a plain scalar, whose first character is `c`: nothing there is taken for a mark. -/
structure PlainStart (c : Char) (r : List Char) : Prop where
  gap : isGap c = false
  shown : isShown c
  indicator : c ∉ indicators
  mark : c ∈ ['?', ':', '-'] → ∃ d r', r = d :: r' ∧ isGap d = false
  border : ∀ m ∈ ['-', '.'], (c :: r).take 3 ≠ [m, m, m]

theorem plainStart_of_allowsPlain {c : Char} {r : List Char} (h : Style.allowsPlain (c :: r)) :
    PlainStart c r := by
  simp only [Style.allowsPlain, Bool.and_eq_true] at h
  obtain ⟨⟨⟨⟨hhead, -⟩, hshown⟩, hbreak⟩, hmark⟩ := h
  rw [Bool.not_eq_true', List.any_eq_false] at hbreak
  rw [Bool.not_eq_true', hasMark] at hmark
  simp only [Bool.or_eq_false_iff, Bool.and_eq_false_iff, List.contains_eq_mem, List.any_eq_false,
    decide_eq_false_iff_not, beq_iff_eq] at hmark
  obtain ⟨⟨⟨hborder, hindicator⟩, hsingle⟩, -⟩ := hmark
  have hfirst := List.all_eq_true.1 hshown c List.mem_cons_self
  refine ⟨?_, hfirst, hindicator, fun hc => ?_, hborder⟩
  · exact isGap_eq_false hfirst (eq_false_of_ne_true (hbreak c List.mem_cons_self))
      (by simpa using hhead)
  · have hends := hsingle.resolve_left fun h => h hc
    cases r with
    | nil => cases hends
    | cons d r => exact ⟨d, r, rfl, hends⟩

/-- A character that is no gap stays where it is when lines are folded. -/
theorem Frame.exists_of_folded_eq_cons {f : Frame} {last m : Char} {column : Nat} {cs x : List Char}
    (h : f.folded last column cs = m :: x) (hm : isGap m = false) :
    ∃ r, cs = m :: r ∧ f.folded m (column + 1) r = x := by
  cases cs with
  | nil => cases h
  | cons c r =>
    have hbreak : isShownBreak m = false := isShownBreak_eq_false hm
    have hline : isShownBreak '\n' = true := by decide
    have hc : isShownBreak c = false := by
      by_contra hc
      rw [Bool.not_eq_false] at hc
      rw [folded, if_pos hc] at h
      split at h <;> split at h <;> cases h <;> simp_all
    by_cases hfold : c = ' ' ∧ last ≠ ' ' ∧ r.head?.any (· != ' ') ∧ f.folds ∧ width < column
    · rw [folded, hc, if_neg Bool.false_ne_true, if_pos hfold] at h
      cases h
      rw [hline] at hbreak
      cases hbreak
    · rw [folded, hc, if_neg Bool.false_ne_true, if_neg hfold] at h
      cases h
      exact ⟨r, rfl, rfl⟩

theorem PlainStart.folded {c : Char} {r : List Char} (h : PlainStart c r) (f : Frame) (column : Nat) :
    PlainStart c (f.folded c column r) := by
  refine ⟨h.gap, h.shown, h.indicator, fun hc => ?_, fun m hm htake => ?_⟩
  · obtain ⟨d, r', rfl, hd⟩ := h.mark hc
    exact ⟨d, _, f.folded_of_not_isGap hd _ _ _, hd⟩
  · have hgap : isGap m = false := by
      simp only [List.mem_cons, List.not_mem_nil, or_false] at hm
      rcases hm with rfl | rfl <;> rfl
    obtain ⟨x, hx⟩ : ∃ x, c :: f.folded c column r = m :: m :: m :: x :=
      ⟨_, by rw [← List.take_append_drop 3 (c :: _), htake]; rfl⟩
    obtain ⟨rfl, hx⟩ := List.cons.inj hx
    obtain ⟨r, rfl, hr⟩ := Frame.exists_of_folded_eq_cons hx hgap
    obtain ⟨_, rfl, -⟩ := Frame.exists_of_folded_eq_cons hr hgap
    exact h.border c hm rfl

/-- A plain scalar that is not empty begins with its first character, which is no mark. -/
theorem exists_plainStart {cs : List Char} (h : Style.allowsPlain cs) (hne : cs ≠ []) (f : Frame)
    (column : Nat) : ∃ c r, Style.plain.write f column cs = c :: r ∧ PlainStart c r := by
  obtain ⟨c, r, rfl⟩ := List.exists_cons_of_ne_nil hne
  have hstart := plainStart_of_allowsPlain h
  exact ⟨c, _, f.folded_of_not_isGap hstart.gap _ _ _, hstart.folded _ _⟩

/-! ## Single quotes -/

theorem quotedBody_append {double : Bool} {u b : List Char}
    (hu : ∀ c ∈ u, c ≠ quoteOf double ∧ c ≠ '\r' ∧ (double → c ≠ '\\')) (hb : QuotedBody double b) :
    QuotedBody double (u ++ b) := by
  induction u with
  | nil => exact hb
  | cons c u ih =>
    rw [List.forall_mem_cons] at hu
    exact .char hu.1.1 hu.1.2.1 hu.1.2.2 (ih hu.2)

theorem quotedBody_blanks {double : Bool} {b : List Char} (hb : QuotedBody double b) (n : Nat) :
    QuotedBody double (blanks n ++ b) := by
  refine quotedBody_append (fun c hc => ?_) hb
  rw [List.eq_of_mem_replicate hc]
  cases double <;> decide

theorem quotedBody_newLine {double : Bool} {b : List Char} (hb : QuotedBody double b) (n : Nat) :
    QuotedBody double (newLine n ++ b) := by
  refine .char ?_ (by decide) (fun _ => by decide) (quotedBody_blanks hb n)
  cases double <;> decide

/-- Every quote of a text is doubled between single quotes. -/
theorem quotedBody_doubleQuotes {cs : List Char} (h : '\r' ∉ cs) :
    QuotedBody false (doubleQuotes cs) := by
  induction cs with
  | nil => exact .nil
  | cons c cs ih =>
    rw [List.mem_cons, not_or] at h
    rw [doubleQuotes, List.flatMap_cons]
    split
    · exact .twice rfl (ih h.2)
    · next hc => exact .char hc (Ne.symm h.1) (fun h => absurd h Bool.false_ne_true) (ih h.2)

/-- Folding lines leaves the quotes alone. -/
theorem quotedBody_folded {f : Frame} {cs : List Char} (h : QuotedBody false cs) (last : Char)
    (column : Nat) : QuotedBody false (f.folded last column cs) := by
  induction h generalizing last column with
  | nil => exact .nil
  | @char c b hquote hreturn hbackslash hb ih =>
    have hline (u : List Char) (hu : ∀ d ∈ u, d ≠ '\'' ∧ d ≠ '\r') :
        QuotedBody false (if b.head?.any isShownBreak then u ++ f.folded c 0 b
          else u ++ blanks f.indent ++ f.folded c f.indent b) := by
      have hu' : ∀ d ∈ u, d ≠ quoteOf false ∧ d ≠ '\r' ∧ (false → d ≠ '\\') := fun d hd =>
        ⟨(hu d hd).1, (hu d hd).2, fun h => absurd h Bool.false_ne_true⟩
      split
      · exact quotedBody_append hu' (ih _ _)
      · rw [List.append_assoc]
        exact quotedBody_append hu' (quotedBody_blanks (ih _ _) _)
    rw [Frame.folded]
    split
    · split
      · exact hline ['\n', '\n'] (by simp)
      · exact hline [c] (List.forall_mem_singleton.2 ⟨hquote, hreturn⟩)
    · split
      · exact quotedBody_newLine (ih _ _) _
      · exact .char hquote hreturn hbackslash (ih _ _)
  | @twice b hdouble hb ih =>
    have hbreak : isShownBreak '\'' = false := by decide
    rw [f.folded_char hbreak (by decide), f.folded_char hbreak (by decide)]
    exact .twice hdouble (ih _ _)
  | escape hdouble => cases hdouble

/-! ## Double quotes -/

theorem isEscape_code {c : Char} {size : Nat} (hc : shortEscapes.lookup c = none)
    (hsize : codeLength? c = some size) (n : Nat) : IsEscape (c :: Frame.codeDigits size n) :=
  .code hc (by rw [hsize, Frame.codeDigits, List.length_map, Text.length_hexDigits])

theorem isBreak_of_mem_codeDigits (size n : Nat) : ∀ d ∈ Frame.codeDigits size n, isBreak d = false := by
  have hdigit : ∀ d < 16, isBreak (Nat.digitChar d).toUpper = false := by decide
  rw [Frame.codeDigits]
  induction size generalizing n with
  | zero => exact fun d hd => absurd hd List.not_mem_nil
  | succ size ih =>
    rw [Text.hexDigits, List.map_append, List.forall_mem_append]
    exact ⟨ih _, List.forall_mem_singleton.2 (hdigit (n % 16) (Nat.mod_lt _ (by decide)))⟩

/-- The escape of a code point is read as one, and stands on one line. -/
theorem exists_isEscape (p : CodePoint) :
    ∃ e, Frame.escape p = '\\' :: e ∧ IsEscape e ∧ ∀ d ∈ e, isBreak d = false := by
  have hnamed : ∀ e ∈ Frame.namedEscapes, (shortEscapes.lookup e.2).isSome ∧ isBreak e.2 = false := by
    decide
  have hcode {d : Char} {size : Nat} (hd : shortEscapes.lookup d = none ∧ isBreak d = false)
      (hsize : codeLength? d = some size) : ∃ e, '\\' :: d :: Frame.codeDigits size p.toNat =
        '\\' :: e ∧ IsEscape e ∧ ∀ d ∈ e, isBreak d = false :=
    ⟨_, rfl, isEscape_code hd.1 hsize _,
      List.forall_mem_cons.2 ⟨hd.2, isBreak_of_mem_codeDigits _ _⟩⟩
  rw [Frame.escape]
  split
  · next name hname =>
    obtain ⟨before, after, hsplit, -⟩ := List.lookup_eq_some_iff.1 hname
    obtain ⟨hshort, hbreak⟩ := hnamed (p.toNat, name) (by rw [hsplit]; simp)
    exact ⟨[name], rfl, .short hshort, List.forall_mem_singleton.2 hbreak⟩
  · split
    · exact hcode (by decide) rfl
    · split
      · exact hcode (by decide) rfl
      · exact hcode (by decide) rfl

theorem quotedBody_backslash {c : Char} {b : List Char} (hc : (shortEscapes.lookup c).isSome)
    (hreturn : '\r' ≠ c) (hb : QuotedBody true b) : QuotedBody true ('\\' :: c :: b) :=
  .escape (e := [c]) rfl (.short hc) (fun h => hreturn (List.mem_singleton.1 h)) hb

theorem quotedBody_raw {c : Char} {b : List Char} (hc : Frame.isRaw c) (hb : QuotedBody true b) :
    QuotedBody true (c :: b) := by
  simp only [Frame.isRaw, Bool.and_eq_true, bne_iff_ne] at hc
  obtain ⟨⟨⟨⟨hquote, hbackslash⟩, hshown⟩, -⟩, -⟩ := hc
  exact .char hquote (ne_carriageReturn_of_isShown hshown) (fun _ => hbackslash) hb

/-- A line may be broken behind a backslash, and blanks stand in front of the next one. -/
theorem quotedBody_brokenLine {b : List Char} (hb : QuotedBody true b) (n : Nat) :
    QuotedBody true ('\\' :: newLine n ++ b) :=
  .escape (e := ['\n']) rfl .line (by decide) (quotedBody_blanks hb n)

/-- Between double quotes every quote of a text is escaped, also behind the backslash that guards a
    blank at the beginning of a line. -/
theorem quotedBody_escaped (f : Frame) (ps : List CodePoint) (first afterEscape : Bool) (column : Nat) :
    QuotedBody true (f.escaped first afterEscape column ps) ∧
      QuotedBody true (Frame.guardOf ps.head? ++ f.escaped first afterEscape column ps) := by
  induction ps generalizing first afterEscape column with
  | nil => exact ⟨.nil, .nil⟩
  | cons p r ih =>
    cases hraw? : Frame.raw? p with
    | some c =>
      obtain ⟨rfl, hraw⟩ := Frame.raw?_eq_some hraw?
      have hguard {b : List Char} (hb : QuotedBody true b) :
          QuotedBody true (Frame.guardOf (some (.char c)) ++ c :: b) := by
        rw [Frame.guardOf]
        split
        · next hc =>
          cases hc
          exact quotedBody_backslash (by decide) (by decide) hb
        · exact quotedBody_raw hraw hb
      have hplain : QuotedBody true (f.escaped first afterEscape column (.char c :: r)) := by
        rw [Frame.escaped, hraw?]
        dsimp only
        split
        · rw [List.append_assoc]
          exact quotedBody_brokenLine (hguard (ih _ _ _).1) _
        · exact quotedBody_raw hraw (ih _ _ _).1
      refine ⟨hplain, ?_⟩
      by_cases hc : c = ' '
      · -- The guard is a backslash, and it may stand in front of another one.
        subst hc
        rw [Frame.escaped, hraw?]
        dsimp only
        split
        · rw [List.append_assoc]
          exact quotedBody_backslash (by decide) (by decide) (quotedBody_newLine (hguard (ih _ _ _).1) _)
        · exact quotedBody_backslash (by decide) (by decide) (ih _ _ _).1
      · have hguard : Frame.guardOf (some (.char c)) = [] := if_neg fun h => hc (by cases h; rfl)
        rwa [List.head?_cons, hguard, List.nil_append]
    | none =>
      obtain ⟨e, he, hescape, hbreak⟩ := exists_isEscape p
      have hreturn : '\r' ∉ e := fun h => absurd (hbreak _ h) (by decide)
      have hguard : Frame.guardOf (some p) = [] := if_neg fun h => by
        cases h
        cases hraw?
      rw [List.head?_cons, hguard, List.nil_append, and_self, Frame.escaped, hraw?, he]
      dsimp only
      split
      · simp only [List.cons_append, List.append_assoc]
        exact .escape rfl hescape hreturn (quotedBody_brokenLine (ih _ _ _).2 _)
      · exact .escape rfl hescape hreturn (ih _ _ _).1

/-! ## Scalars in quotes -/

/-- A scalar that is not plain stands between two quotes of one kind. -/
theorem exists_quotedBody {plainTag : Bool} {cs : List Char} (h : Style.ofText plainTag cs ≠ .plain)
    (f : Frame) (column : Nat) : ∃ double b,
      (Style.ofText plainTag cs).write f column cs = quoteOf double :: (b ++ [quoteOf double]) ∧
        QuotedBody double b := by
  rw [Style.ofText] at h ⊢
  split
  · next hplain => exact absurd (if_pos hplain) h
  · split
    · next hsingle =>
      simp only [Style.allowsSingle, Bool.and_eq_true] at hsingle
      have hreturn : '\r' ∉ cs := fun h =>
        ne_carriageReturn_of_isShown (List.all_eq_true.1 hsingle.1.1 _ h) rfl
      exact ⟨false, _, rfl, quotedBody_folded (quotedBody_doubleQuotes hreturn) _ _⟩
    · exact ⟨true, _, rfl, (quotedBody_escaped f _ true false (column + 1)).1⟩

/-! ## Scalars on one line -/

theorem isBreak_eq_false {c : Char} (hshown : isShown c) (hbreak : isShownBreak c = false) :
    isBreak c = false := by
  simpa [isShownBreak, ne_carriageReturn_of_isShown hshown] using hbreak

theorem isBreak_of_mem_escaped {f : Frame} (hf : f.folds = false) (ps : List CodePoint)
    (first afterEscape : Bool) (column : Nat) :
    ∀ c ∈ f.escaped first afterEscape column ps, isBreak c = false := by
  induction ps generalizing first afterEscape column with
  | nil => exact fun c hc => absurd hc List.not_mem_nil
  | cons p r ih =>
    cases hraw? : Frame.raw? p with
    | some d =>
      have hbreak : isBreak d = false := by
        have hraw := (Frame.raw?_eq_some hraw?).2
        simp only [Frame.isRaw, Bool.and_eq_true, Bool.not_eq_true'] at hraw
        exact isBreak_eq_false hraw.1.1.2 hraw.1.2
      simp only [Frame.escaped, hraw?, hf, Bool.false_and, Bool.false_eq_true, false_and, if_false,
        List.forall_mem_cons]
      exact ⟨hbreak, ih _ _ _⟩
    | none =>
      obtain ⟨e, he, -, hbreak⟩ := exists_isEscape p
      simp only [Frame.escaped, hraw?, hf, Bool.false_and, Bool.false_eq_true, false_and, if_false,
        he, List.cons_append, List.forall_mem_cons, List.forall_mem_append]
      exact ⟨by decide, hbreak, ih _ _ _⟩

theorem isBreak_of_mem_writeDouble {f : Frame} (hf : f.folds = false) (column : Nat)
    (ps : List CodePoint) : ∀ c ∈ Style.writeDouble f column ps, isBreak c = false := by
  rw [Style.writeDouble, List.cons_append, List.forall_mem_cons, List.forall_mem_append]
  exact ⟨by decide, isBreak_of_mem_escaped hf ps _ _ _, List.forall_mem_singleton.2 (by decide)⟩

/-- A text without line breaks is written on one line if no lines are folded. -/
theorem isBreak_of_mem_write {cs : List Char} (hcs : ∀ c ∈ cs, isShownBreak c = false) (plainTag : Bool)
    {f : Frame} (hf : f.folds = false) (column : Nat) :
    ∀ c ∈ (Style.ofText plainTag cs).write f column cs, isBreak c = false := by
  rw [Style.ofText]
  split
  · next hplain =>
    simp only [Style.allowsPlain, Bool.and_eq_true] at hplain
    rw [Style.write, Frame.folded_of_folds_eq_false hf _ _ hcs]
    exact fun c hc => isBreak_eq_false (List.all_eq_true.1 hplain.2.1.1.2 c hc) (hcs c hc)
  · split
    · next hsingle =>
      simp only [Style.allowsSingle, Bool.and_eq_true] at hsingle
      have hbreak : ∀ c ∈ doubleQuotes cs, isBreak c = false := by
        intro c hc
        obtain ⟨d, hd, hc⟩ := List.mem_flatMap.1 hc
        split at hc
        · simp only [List.mem_cons, List.not_mem_nil, or_false, or_self] at hc
          rw [hc]
          decide
        · rw [List.mem_singleton.1 hc]
          exact isBreak_eq_false (List.all_eq_true.1 hsingle.1.1 d hd) (hcs d hd)
      have hshown : ∀ c ∈ doubleQuotes cs, isShownBreak c = false := fun c hc => by
        rw [isShownBreak, hbreak c hc, Bool.and_false]
      rw [Style.write, Frame.folded_of_folds_eq_false hf _ _ hshown, List.cons_append,
        List.forall_mem_cons, List.forall_mem_append]
      exact ⟨by decide, hbreak, List.forall_mem_singleton.2 (by decide)⟩
    · exact isBreak_of_mem_writeDouble hf column _

end Stencil.Yaml
