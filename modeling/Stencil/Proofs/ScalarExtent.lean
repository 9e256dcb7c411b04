import Mathlib.Data.List.TakeWhile
import Stencil.Yaml.ScalarText
import Stencil.Yaml.Token.Lexer

/-!
# Where written scalars end

A written scalar is read up to its end, whatever stands behind it: a plain one up to a gap that does not
go on with it, a quoted one up to its closing quote. What is read does not depend on what follows.

* `Cursor`: the place of a character, and of what follows a text;
* `Spaced`, `exists_readPlain`: words with gaps between them are read as one plain text;
* `QuotedBody`, `exists_quotedAs`: a text without a lonely quote in it is read up to the next quote.
-/

namespace Stencil.Yaml

/-- The characters in front that satisfy a condition, and the rest. -/
theorem exists_span (q : Char → Bool) (cs : List Char) :
    ∃ u r, cs = u ++ r ∧ (∀ c ∈ u, q c) ∧ ∀ c ∈ r.head?, q c = false := by
  refine ⟨cs.takeWhile q, cs.dropWhile q, List.takeWhile_append_dropWhile.symm,
    fun c => List.mem_takeWhile_imp, fun c hc => ?_⟩
  have hnot := List.head?_dropWhile_not q cs
  rw [hc] at hnot
  simpa using hnot

/-! ## Cursors -/

/-- A place in a text. -/
structure Cursor where
  index : Nat
  line : Nat
  column : Nat

namespace Cursor

/-- The place behind a character. -/
def next (p : Cursor) (c : Char) : Cursor :=
  if isBreak c then ⟨p.index + 1, p.line + 1, 0⟩
  else ⟨p.index + 1, p.line, if c = byteOrderMark then p.column else p.column + 1⟩

/-- The place behind a text. -/
def after (p : Cursor) (cs : List Char) : Cursor := cs.foldl next p

/-- A character in its place. -/
def spot (p : Cursor) (c : Char) : Spot := ⟨c, p.index, p.line, p.column⟩

/-- The characters of a text in their places, the first one in a given place. -/
def spots (p : Cursor) (cs : List Char) : Rest := spotsFrom p.index p.line p.column cs

variable {p : Cursor} {c : Char} {cs ds : List Char}

@[simp]
theorem spot_char (p : Cursor) (c : Char) : (p.spot c).char = c := rfl

@[simp]
theorem after_nil (p : Cursor) : p.after [] = p := rfl

@[simp]
theorem after_cons (p : Cursor) (c : Char) (cs : List Char) :
    p.after (c :: cs) = (p.next c).after cs := rfl

@[simp]
theorem after_append (p : Cursor) (cs ds : List Char) :
    p.after (cs ++ ds) = (p.after cs).after ds := List.foldl_append

theorem spots_cons (hc : c ≠ '\r') (p : Cursor) (cs : List Char) :
    p.spots (c :: cs) = p.spot c :: (p.next c).spots cs := by
  have hpair : (c == '\r' && cs.head? == some '\n') = false := by simp [hc]
  rw [spots, spotsFrom, hpair, Bool.not_false, Bool.and_true, next]
  split <;> rfl

/-- The first place is that of the first character. Only if this is the first half of a line break
    does the second half not count as one of its own. -/
theorem exists_spots_cons (p : Cursor) (c : Char) (cs : List Char) :
    ∃ q : Cursor, p.spots (c :: cs) = p.spot c :: q.spots cs := by
  rw [spots, spotsFrom]
  split
  · exact ⟨⟨_, _, _⟩, rfl⟩
  · exact ⟨⟨_, _, _⟩, rfl⟩

theorem next_of_not_isBreak (hc : isBreak c = false) (p : Cursor) : (p.next c).line = p.line ∧
    p.column ≤ (p.next c).column := by
  simp only [next, hc, Bool.false_eq_true, if_false, true_and]
  split <;> omega

/-- On one line a text leads to no smaller column. -/
theorem column_le_after (p : Cursor) (h : ∀ c ∈ cs, isBreak c = false) :
    p.column ≤ (p.after cs).column := by
  induction cs generalizing p with
  | nil => exact Nat.le_refl _
  | cons c cs ih =>
    rw [List.forall_mem_cons] at h
    exact Nat.le_trans (next_of_not_isBreak h.1 p).2 (ih _ h.2)

/-- No text leads back to a line before. -/
theorem line_le_after (p : Cursor) (cs : List Char) : p.line ≤ (p.after cs).line := by
  induction cs generalizing p with
  | nil => exact Nat.le_refl _
  | cons c cs ih =>
    refine Nat.le_trans ?_ (ih (p.next c))
    rw [next]
    split
    · exact Nat.le_succ _
    · exact Nat.le_refl _

theorem after_blanks (p : Cursor) (n : Nat) :
    p.after (blanks n) = ⟨p.index + n, p.line, p.column + n⟩ := by
  induction n generalizing p with
  | zero => rfl
  | succ n ih =>
    have hnext : p.next ' ' = ⟨p.index + 1, p.line, p.column + 1⟩ := rfl
    rw [blanks, List.replicate_succ, after_cons, hnext]
    refine (ih _).trans ?_
    simp [Nat.add_assoc, Nat.add_comm 1]

/-- Behind a line break and blanks, the column is the number of the blanks. -/
theorem after_newLine (p : Cursor) (n : Nat) :
    p.after (newLine n) = ⟨p.index + 1 + n, p.line + 1, n⟩ := by
  rw [newLine, after_cons, after_blanks]
  exact Cursor.mk.injEq .. ▸ ⟨rfl, rfl, Nat.zero_add n⟩

theorem peek_spots (p : Cursor) (cs : List Char) : peek (p.spots cs) = cs.headD endMark := by
  cases cs <;> rfl

theorem peekAt_spots (p : Cursor) (n : Nat) (cs : List Char) :
    peekAt n (p.spots cs) = (cs.drop n).headD endMark := by
  have hpeek (r : Rest) : peek r = (r.map (·.char)).headD endMark := by cases r <;> rfl
  rw [peekAt, hpeek, List.map_drop, spots, map_char_spotsFrom]

theorem column?_spots_cons (p : Cursor) (c : Char) (cs : List Char) :
    column? (p.spots (c :: cs)) = some p.column := rfl

/-- Characters are taken up to the first one that does not belong to them. -/
theorem takeChars_spots {q : Char → Bool} (hcs : ∀ c ∈ cs, q c = true ∧ c ≠ '\r')
    (hds : ∀ d ∈ ds.head?, q d = false) (p : Cursor) :
    takeChars q (p.spots (cs ++ ds)) = (cs, (p.after cs).spots ds) := by
  induction cs generalizing p with
  | nil =>
    cases ds with
    | nil => rfl
    | cons d ds =>
      have hd : q d = false := hds d rfl
      rw [List.nil_append, after_nil, spots, spotsFrom, takeChars, if_neg (by simp [hd])]
  | cons c cs ih =>
    rw [List.forall_mem_cons] at hcs
    have hc : q (p.spot c).char = true := hcs.1.1
    rw [List.cons_append, spots_cons hcs.1.2, takeChars, if_pos hc, ih hcs.2, after_cons]
    rfl

theorem length_spots (p : Cursor) (cs : List Char) : (p.spots cs).length = cs.length := by
  rw [← List.length_map (·.char), spots, map_char_spotsFrom]

/-- What is left behind a text are the places of what follows it. -/
theorem drop_spots (hcs : '\r' ∉ cs) (p : Cursor) :
    (p.spots (cs ++ ds)).drop cs.length = (p.after cs).spots ds := by
  induction cs generalizing p with
  | nil => rfl
  | cons c cs ih =>
    rw [List.mem_cons, not_or] at hcs
    rw [List.cons_append, spots_cons (Ne.symm hcs.1), List.length_cons, List.drop_succ_cons, ih hcs.2,
      after_cons]

end Cursor

/-- What is left by taking characters is what is left by passing over them. -/
theorem takeChars_snd (q : Char → Bool) (r : Rest) : (takeChars q r).2 = skipChars q r := by
  induction r with
  | nil => rfl
  | cons s r ih =>
    rw [skipChars] at ih ⊢
    rw [takeChars, List.dropWhile_cons]
    split
    · exact ih
    · rfl

/-! ## Words -/

/-- A word of a plain text: there is no gap in it and no colon at its end. -/
def IsWord (w : List Char) : Prop := (∀ c ∈ w, isGap c = false) ∧ w.getLast? ≠ some ':'

/-- Whether a plain word ends in front of a text. -/
def endsWord : List Char → Bool
  | [] => true
  | c :: r => endsPlain false c (r.headD endMark)

theorem ne_of_not_isGap {c d : Char} (h : isGap c = false) (hd : isGap d) : c ≠ d := by
  rintro rfl
  exact absurd hd (by rw [h]; exact Bool.false_ne_true)

theorem ne_carriageReturn_of_not_isGap {c : Char} (h : isGap c = false) : c ≠ '\r' :=
  ne_of_not_isGap h (by decide)

theorem isBreak_of_not_isGap {c : Char} (h : isGap c = false) : isBreak c = false := by
  simp only [isGap, isSpaceOrEnd, isLineEnd, Bool.or_eq_false_iff] at h
  exact h.2.2.2

theorem endsWord_of_isGap {c : Char} (h : isGap c) (r : List Char) : endsWord (c :: r) := by
  rw [endsWord, endsPlain, h, Bool.true_or, Bool.true_or]

/-- Where a word ends there is nothing of it left to read. -/
theorem readWord_of_endsWord {z : List Char} (hz : endsWord z) (p : Cursor) :
    readWord false (p.spots z) = ([], p.spots z) := by
  cases z with
  | nil => rfl
  | cons c r =>
    obtain ⟨q, hq⟩ := p.exists_spots_cons c r
    rw [endsWord] at hz
    rw [hq, readWord, Cursor.peek_spots, Cursor.spot, if_pos hz]

/-- No word ends before its last character. -/
theorem IsWord.endsPlain_eq_false {c : Char} {w : List Char} (h : IsWord (c :: w)) (z : List Char) :
    endsPlain false c ((w ++ z).headD endMark) = false := by
  obtain ⟨hgap, hlast⟩ := h
  rw [List.forall_mem_cons] at hgap
  rw [endsPlain, hgap.1]
  cases w with
  | nil => simp_all
  | cons d w => simp [hgap.2 d List.mem_cons_self]

/-- A word is read up to its end. -/
theorem readWord_append {w z : List Char} (hw : IsWord w) (hz : endsWord z) (p : Cursor) :
    readWord false (p.spots (w ++ z)) = (w, (p.after w).spots z) := by
  induction w generalizing p with
  | nil => exact readWord_of_endsWord hz p
  | cons c w ih =>
    have hends := hw.endsPlain_eq_false z
    obtain ⟨hgap, hlast⟩ := hw
    rw [List.forall_mem_cons] at hgap
    have hw : IsWord w := ⟨hgap.2, fun h => hlast (by rw [List.getLast?_cons, h]; rfl)⟩
    rw [List.cons_append, Cursor.spots_cons (ne_carriageReturn_of_not_isGap hgap.1), readWord,
      Cursor.spot_char, Cursor.peek_spots, hends, if_neg Bool.false_ne_true, ih hw]
    rfl

/-! ## Plain texts -/

/-- A gap between two words of a plain text: blanks, or a line break and the indentation. -/
def IsWordGap (indent : Nat) (g : List Char) : Prop := (∃ n, g = blanks (n + 1)) ∨ g = newLine indent

/-- Words with gaps between them, as a plain text is written. A word behind a gap is no comment. -/
inductive Spaced (gap : List Char → Prop) : List Char → Prop
  | word {w : List Char} (hw : IsWord w) (hne : w ≠ []) : Spaced gap w
  | more {w g rest : List Char} (hw : IsWord w) (hne : w ≠ []) (hg : gap g)
      (hmark : rest.head? ≠ some '#') (hrest : Spaced gap rest) : Spaced gap (w ++ (g ++ rest))

/-- A plain text starts with a word. -/
theorem Spaced.exists_word {gap : List Char → Prop} {x : List Char} (h : Spaced gap x) :
    ∃ c w rest, x = (c :: w) ++ rest ∧ IsWord (c :: w) := by
  cases h with
  | @word w hw hne =>
    obtain ⟨c, w, rfl⟩ := List.exists_cons_of_ne_nil hne
    exact ⟨c, w, [], (List.append_nil _).symm, hw⟩
  | @more w g rest hw hne =>
    obtain ⟨c, w, rfl⟩ := List.exists_cons_of_ne_nil hne
    exact ⟨c, w, _, rfl, hw⟩

/-- Blanks without a line break in front of a character are no empty lines. -/
theorem readPlainBreaks_blanks {z : List Char} (hz : ∀ c ∈ z.head?, c ≠ ' ' ∧ isBreak c = false)
    (p : Cursor) (n : Nat) :
    readPlainBreaks (p.spots (blanks n ++ z)) = (some [], (p.after (blanks n)).spots z) := by
  induction n generalizing p with
  | zero =>
    cases z with
    | nil => rfl
    | cons c z =>
      obtain ⟨q, hq⟩ := p.exists_spots_cons c z
      obtain ⟨hc, hbreak⟩ := hz c rfl
      change readPlainBreaks (p.spots (c :: z)) = (some [], p.spots (c :: z))
      rw [hq, readPlainBreaks, Cursor.spot_char, if_neg hc, hbreak, if_neg Bool.false_ne_true]
  | succ n ih =>
    rw [blanks, List.replicate_succ, List.cons_append, Cursor.spots_cons (by decide), readPlainBreaks,
      Cursor.spot_char, if_pos rfl]
    exact ih _

/-- A line break and blanks are passed over by a plain text, unless there is the border of a document
    behind the break; then the reader stops there. -/
theorem readPlainSpaces_newLine {z : List Char} (hz : ∀ c ∈ z.head?, c ≠ ' ' ∧ isBreak c = false)
    (p : Cursor) (n : Nat) : ∃ spaces, readPlainSpaces (p.spots (newLine n ++ z)) =
      (spaces, true, (p.after (newLine n)).spots z) ∧ (0 < n → spaces = [' ']) := by
  have htake : takeChars (· == ' ') (p.spots ([] ++ (newLine n ++ z))) =
      ([], (p.after []).spots (newLine n ++ z)) :=
    Cursor.takeChars_spots (fun c hc => absurd hc List.not_mem_nil) (fun d hd => by cases hd; rfl) p
  rw [List.nil_append, Cursor.after_nil] at htake
  have hline : p.spots (newLine n ++ z) = p.spot '\n' :: (p.next '\n').spots (blanks n ++ z) :=
    Cursor.spots_cons (by decide) p _
  have hfirst : takeBreak (p.spots (newLine n ++ z)) =
      (['\n'], (p.next '\n').spots (blanks n ++ z)) := by
    rw [hline]
    rfl
  have hbreaks := readPlainBreaks_blanks hz (p.next '\n') n
  have hborder : atBorder ((p.next '\n').spots (blanks n ++ z)) → n = 0 := by
    cases n with
    | zero => exact fun _ => rfl
    | succ n =>
      intro h
      simp [atBorder, isBorder, Cursor.peek_spots, blanks, List.replicate_succ] at h
  rw [readPlainSpaces, htake]
  dsimp only
  rw [Cursor.peek_spots, if_pos (by rfl), hfirst]
  dsimp only
  -- Behind the break the reader looks for the border of a document first, and for blanks only then.
  by_cases hb : atBorder ((p.next '\n').spots (blanks n ++ z))
  · obtain rfl := hborder hb
    rw [if_pos hb]
    exact ⟨[], rfl, nofun⟩
  · rw [if_neg hb, hbreaks]
    exact ⟨[' '], rfl, fun _ => rfl⟩

/-- Blanks are passed over by a plain text. -/
theorem readPlainSpaces_blanks {z : List Char} (hz : ∀ c ∈ z.head?, c ≠ ' ' ∧ isBreak c = false)
    (p : Cursor) (n : Nat) :
    readPlainSpaces (p.spots (blanks n ++ z)) = (blanks n, false, (p.after (blanks n)).spots z) := by
  have htake : takeChars (· == ' ') (p.spots (blanks n ++ z)) =
      (blanks n, (p.after (blanks n)).spots z) :=
    Cursor.takeChars_spots
      (fun c hc => by rw [List.eq_of_mem_replicate hc]; exact ⟨rfl, by decide⟩)
      (fun d hd => beq_false_of_ne (hz d hd).1) p
  have hbreak : isBreak (z.headD endMark) = false := by
    cases z with
    | nil => rfl
    | cons c z => exact (hz c rfl).2
  rw [readPlainSpaces, htake]
  dsimp only
  rw [Cursor.peek_spots, hbreak, if_neg Bool.false_ne_true]

namespace IsWordGap

variable {indent : Nat} {g : List Char}

/-- A gap starts with a character that no word has. -/
theorem exists_head (h : IsWordGap indent g) : ∃ c r, g = c :: r ∧ isGap c := by
  rcases h with ⟨n, rfl⟩ | rfl
  · exact ⟨' ', blanks n, rfl, by decide⟩
  · exact ⟨'\n', blanks indent, rfl, by decide⟩

/-- A gap ends the word in front of it. -/
theorem endsWord (h : IsWordGap indent g) (z : List Char) : endsWord (g ++ z) := by
  obtain ⟨c, r, rfl, hc⟩ := h.exists_head
  exact endsWord_of_isGap hc _

/-- A gap between two words is passed over. -/
theorem exists_readPlainSpaces (h : IsWordGap indent g) (hpos : 0 < indent) (p : Cursor) :
    ∃ spaces broken, spaces ≠ [] ∧
      ∀ z : List Char, (∀ c ∈ z.head?, c ≠ ' ' ∧ isBreak c = false) →
        readPlainSpaces (p.spots (g ++ z)) = (spaces, broken, (p.after g).spots z) := by
  rcases h with ⟨n, rfl⟩ | rfl
  · exact ⟨blanks (n + 1), false, List.cons_ne_nil _ _,
      fun z hz => readPlainSpaces_blanks hz p (n + 1)⟩
  · refine ⟨[' '], true, List.cons_ne_nil _ _, fun z hz => ?_⟩
    obtain ⟨spaces, hspaces, hone⟩ := readPlainSpaces_newLine hz p indent
    rw [hspaces, hone hpos]

/-- Behind a gap, the text stands in no smaller column than it has to. -/
theorem le_column_after (h : IsWordGap indent g) {least : Int} {p : Cursor}
    (hp : least ≤ p.column + 1) (hindent : least ≤ indent) : least ≤ (p.after g).column := by
  rcases h with ⟨n, rfl⟩ | rfl
  · rw [Cursor.after_blanks]
    push_cast
    omega
  · rw [Cursor.after_newLine]
    exact hindent

end IsWordGap

/-- A plain text whose lines stand in column `least` or behind it ends in front of `z`. -/
def EndsPlain (least : Int) (q : Cursor) (z : List Char) : Prop :=
  endsWord z ∧ ((readPlainSpaces (q.spots z)).1 = [] ∨
    ∀ column, column? (readPlainSpaces (q.spots z)).2.2 = some column → (column : Int) < least)

section ReadPlain

variable {indent : Nat} {least : Int} {x : List Char}

/-- The last word of a plain text is read, and the gap behind it is left. -/
theorem readPlain_of_endsPlain {w z : List Char} (hw : IsWord w) {p : Cursor}
    (hz : EndsPlain least (p.after w) z) (fuel : Nat) :
    readPlain false least (fuel + 1) (p.spots (w ++ z)) =
      (w, (readPlainSpaces ((p.after w).spots z)).2) := by
  rw [readPlain, readWord_append hw hz.1]
  dsimp only
  rw [if_pos]
  rcases hz.2 with hnil | hcolumn
  · rw [hnil]
    rfl
  · cases hc : column? (readPlainSpaces ((p.after w).spots z)).2.2 with
    | none => simp
    | some column => simp [Int.not_le.2 (hcolumn column hc)]

/-- Behind a word and a gap, a plain text is read on. -/
theorem exists_readPlain_append {w g rest : List Char} (hw : IsWord w) (hg : IsWordGap indent g)
    (hrest : Spaced (IsWordGap indent) rest) (hmark : rest.head? ≠ some '#') (hpos : 0 < indent)
    {p : Cursor} (hcolumn : least ≤ ((p.after w).after g).column) :
    ∃ spaces, ∀ z fuel, readPlain false least (fuel + 1) (p.spots (w ++ (g ++ (rest ++ z)))) =
      let next := readPlain false least fuel (((p.after w).after g).spots (rest ++ z))
      (w ++ spaces ++ next.1, next.2) := by
  obtain ⟨c, v, more, rfl, hv⟩ := hrest.exists_word
  have hgap := hv.1 c List.mem_cons_self
  obtain ⟨spaces, broken, hne, hspaces⟩ := hg.exists_readPlainSpaces hpos (p.after w)
  refine ⟨spaces, fun z fuel => ?_⟩
  have hhead : ∀ d ∈ ((c :: v) ++ more ++ z).head?, d ≠ ' ' ∧ isBreak d = false := by
    rintro d ⟨⟩
    exact ⟨ne_of_not_isGap hgap (by decide), isBreak_of_not_isGap hgap⟩
  -- The word behind the gap is not empty.
  have hword : (readWord false (((p.after w).after g).spots (c :: (v ++ (more ++ z))))).1 ≠ [] := by
    rw [Cursor.spots_cons (ne_carriageReturn_of_not_isGap hgap), readWord, Cursor.spot_char,
      Cursor.peek_spots, hv.endsPlain_eq_false, if_neg Bool.false_ne_true]
    exact List.cons_ne_nil _ _
  rw [readPlain, readWord_append hw (hg.endsWord _)]
  dsimp only
  rw [hspaces _ hhead]
  dsimp only
  rw [if_neg]
  have hc : c ≠ '#' := fun h => hmark (by rw [h]; rfl)
  simp [hne, hword, Cursor.peek_spots, hc, Cursor.column?_spots_cons, hcolumn]

/-- Words with gaps between them are read as one plain text. -/
theorem exists_readPlain (hx : Spaced (IsWordGap indent) x) (hindent : least ≤ indent)
    (hpos : 0 < indent) (p : Cursor) (hp : least ≤ p.column + 1) :
    ∃ text, ∀ z, EndsPlain least (p.after x) z → ∀ fuel, x.length < fuel →
      readPlain false least fuel (p.spots (x ++ z)) =
        (text, (readPlainSpaces ((p.after x).spots z)).2) := by
  induction hx generalizing p with
  | @word w hw hne =>
    refine ⟨w, fun z hz fuel hfuel => ?_⟩
    obtain ⟨fuel, rfl⟩ := Nat.exists_eq_succ_of_ne_zero (Nat.ne_zero_of_lt hfuel)
    exact readPlain_of_endsPlain hw hz fuel
  | @more w g rest hw hne hg hmark hrest ih =>
    -- The word stays on its line, and its gap leads to a column that is far enough to the right.
    have hline := p.column_le_after fun c hc => isBreak_of_not_isGap (hw.1 c hc)
    have hcolumn : least ≤ ((p.after w).after g).column := hg.le_column_after (by omega) hindent
    obtain ⟨text, htext⟩ := ih ((p.after w).after g) (by omega)
    obtain ⟨spaces, happend⟩ := exists_readPlain_append hw hg hrest hmark hpos hcolumn
    refine ⟨w ++ spaces ++ text, fun z hz fuel hfuel => ?_⟩
    obtain ⟨fuel, rfl⟩ := Nat.exists_eq_succ_of_ne_zero (Nat.ne_zero_of_lt hfuel)
    have hlength : rest.length < fuel := by
      have := List.length_pos_iff.2 hne
      simp only [List.length_append] at hfuel
      omega
    rw [Cursor.after_append, Cursor.after_append] at hz
    rw [List.append_assoc, List.append_assoc, happend, htext z hz fuel hlength,
      Cursor.after_append, Cursor.after_append]

end ReadPlain

/-! ## Quoted texts -/

/-- The quote of a style of quoting. -/
def quoteOf (double : Bool) : Char := if double then '"' else '\''

/-- An escape, from behind its backslash: by one character, by a code, or of a line break. -/
inductive IsEscape : List Char → Prop
  | short {c : Char} (hc : (shortEscapes.lookup c).isSome) : IsEscape [c]
  | code {c : Char} {ds : List Char} (hc : shortEscapes.lookup c = none)
      (hlength : codeLength? c = some ds.length) : IsEscape (c :: ds)
  | line : IsEscape ['\n']

/-- What stands between quotes: a quote comes in a pair or behind a backslash only. -/
inductive QuotedBody (double : Bool) : List Char → Prop
  | nil : QuotedBody double []
  | char {c : Char} {b : List Char} (hquote : c ≠ quoteOf double) (hreturn : c ≠ '\r')
      (hbackslash : double → c ≠ '\\') (hb : QuotedBody double b) : QuotedBody double (c :: b)
  | twice {b : List Char} (hdouble : double = false) (hb : QuotedBody double b) :
      QuotedBody double ('\'' :: '\'' :: b)
  | escape {e b : List Char} (hdouble : double = true) (he : IsEscape e) (hreturn : '\r' ∉ e)
      (hb : QuotedBody double b) : QuotedBody double ('\\' :: (e ++ b))

variable {double : Bool} {b : List Char}

/-- A quoted text has no return in it. -/
theorem QuotedBody.not_mem_return (h : QuotedBody double b) : '\r' ∉ b := by
  induction h with
  | nil => exact List.not_mem_nil
  | char hquote hreturn hbackslash hb ih => simp [ih, Ne.symm hreturn]
  | twice hdouble hb ih => simp [ih]
  | escape hdouble he hreturn hb ih => simp [ih, hreturn]

/-- A blank or a line break is neither a quote nor in an escape. -/
theorem QuotedBody.tail {c : Char} (h : QuotedBody double (c :: b)) (hc : isSpace c ∨ isBreak c) :
    QuotedBody double b := by
  cases h with
  | char hquote hreturn hbackslash hb => exact hb
  | twice hdouble hb => exact absurd hc (by decide)
  | escape hdouble he hreturn hb => exact absurd hc (by decide)

/-- Behind a gap at its beginning there is a quoted text again. -/
theorem QuotedBody.of_append {u : List Char} (h : QuotedBody double (u ++ b))
    (hu : ∀ c ∈ u, isSpace c ∨ isBreak c) : QuotedBody double b := by
  induction u with
  | nil => exact h
  | cons c u ih =>
    rw [List.forall_mem_cons] at hu
    exact ih (h.tail hu.1) hu.2

/-- Whether a border stands in front of a closing quote does not depend on what is behind the quote. -/
theorem atBorder_append (p q : Cursor) (double : Bool) (b y y' : List Char) :
    atBorder (p.spots (b ++ quoteOf double :: y)) = atBorder (q.spots (b ++ quoteOf double :: y')) := by
  simp only [atBorder, isBorder, Cursor.peek_spots, Cursor.peekAt_spots]
  rcases b with _ | ⟨b₀, _ | ⟨b₁, _ | ⟨b₂, _ | ⟨b₃, b⟩⟩⟩⟩ <;> cases double <;> simp [quoteOf]

/-- A line break is taken as the same text wherever it stands. -/
theorem exists_takeBreak {c : Char} (hc : isBreak c) (hreturn : c ≠ '\r') :
    ∃ first, ∀ (p : Cursor) r, takeBreak (p.spot c :: r) = (first, r) := by
  by_cases h : c = '\n' ∨ c = '\r' ∨ c.toNat = 0x85
  · exact ⟨['\n'], fun p r => by
      rw [takeBreak, Cursor.spot_char, if_neg fun h => hreturn h.1, if_pos h]⟩
  · exact ⟨[c], fun p r => by
      rw [takeBreak, Cursor.spot_char, if_neg fun h => hreturn h.1, if_neg h, if_pos hc]⟩

/-- A gap `u` at the beginning of a text is read, and `b'` is what is left of the text in front of the
    closing quote. What is read does not depend on what stands behind that quote. -/
structure ReadsGap {α : Type} (double : Bool) (p : Cursor) (b : List Char)
    (f : List Char → Except Failure (List α × Rest)) (u b' : List Char)
    (o : Except Failure (List α)) : Prop where
  eq_append : b = u ++ b'
  gap : ∀ c ∈ u, isSpace c ∨ isBreak c
  result (y : List Char) :
    f y = o.map fun text => (text, (p.after u).spots (b' ++ quoteOf double :: y))

/-- The fuel may depend on what stands behind the closing quote. -/
theorem ReadsGap.of_fuel {f : Nat → List Char → Except Failure (List Char × Rest)} {p : Cursor}
    {u b' : List Char} {o : Except Failure (List Char)} {least : Nat}
    (h : ∀ fuel, least < fuel → ReadsGap double p b (f fuel) u b' o) (fuel : List Char → Nat)
    (hfuel : ∀ y, least < fuel y) : ReadsGap double p b (fun y => f (fuel y) y) u b' o :=
  ⟨(h _ (Nat.lt_succ_self _)).eq_append, (h _ (Nat.lt_succ_self _)).gap,
    fun y => (h _ (hfuel y)).result y⟩

/-- What a gap is read as may be put in another form. -/
theorem ReadsGap.map {α β : Type} {f : List Char → Except Failure (List α × Rest)}
    {f' : List Char → Except Failure (List β × Rest)} {p : Cursor} {u b' : List Char}
    {o : Except Failure (List α)} (h : ReadsGap double p b f u b' o) {g : List α → List β}
    (hf : ∀ y, f' y = (f y).map fun q => (g q.1, q.2)) : ReadsGap double p b f' u b' (o.map g) := by
  refine ⟨h.eq_append, h.gap, fun y => ?_⟩
  rw [hf, h.result]
  cases o <;> rfl

/-- A gap goes on behind a line break. -/
theorem ReadsGap.behind_break {f f' : List Char → Except Failure (List Char × Rest)} {p : Cursor}
    {u u' r b' : List Char} {c : Char} {o : Except Failure (List Char)}
    (h : ReadsGap double ((p.after u).next c) r f u' b' o) (hu : ∀ c ∈ u, isSpace c ∨ isBreak c)
    (hc : isBreak c) {g : List Char → List Char}
    (hf : ∀ y, f' y = (f y).map fun q => (g q.1, q.2)) :
    ReadsGap double p (u ++ c :: r) f' (u ++ c :: u') b' (o.map g) := by
  refine ⟨by rw [h.eq_append, List.append_assoc, List.cons_append], ?_, fun y => ?_⟩
  · rw [List.forall_mem_append, List.forall_mem_cons]
    exact ⟨hu, .inr hc, h.gap⟩
  · rw [hf, h.result, Cursor.after_append, Cursor.after_cons]
    cases o <;> rfl

/-- A text from its first character on that is neither a blank nor a tab. -/
theorem exists_spaces (double : Bool) (hb : '\r' ∉ b) (p : Cursor) : ∃ u r, b = u ++ r ∧
    (∀ c ∈ u, isSpace c) ∧ (∀ c ∈ r.head?, isSpace c = false) ∧
    ∀ y, takeChars isSpace (p.spots (b ++ quoteOf double :: y)) =
      (u, (p.after u).spots (r ++ quoteOf double :: y)) := by
  obtain ⟨u, r, rfl, hu, hr⟩ := exists_span isSpace b
  refine ⟨u, r, rfl, hu, hr, fun y => ?_⟩
  rw [List.append_assoc]
  refine Cursor.takeChars_spots (fun c hc => ⟨hu c hc, ?_⟩) ?_ p
  · rintro rfl
    exact hb (List.mem_append_left _ hc)
  · cases r with
    | nil =>
      rintro d ⟨⟩
      cases double <;> decide
    | cons c r =>
      rintro d ⟨⟩
      exact hr c rfl

/-- Empty lines and the blanks in front of the next character are read alike whatever stands behind
    the closing quote. -/
theorem exists_readQuotedBreaks (double : Bool) (hb : '\r' ∉ b) (p : Cursor) :
    ∃ u b' o, ∀ fuel, b.length < fuel → ReadsGap double p b
      (fun y => readQuotedBreaks fuel (p.spots (b ++ quoteOf double :: y))) u b' o := by
  -- One turn reads the blanks of a line and the break behind them, so the induction is on the length.
  induction hn : b.length using Nat.strong_induction_on generalizing b p with
  | _ n ih =>
    subst hn
    by_cases hborder : atBorder (p.spots (b ++ quoteOf double :: []))
    · refine ⟨[], b, reject .borderInQuotes, fun fuel hfuel => ⟨rfl, nofun, fun y => ?_⟩⟩
      obtain ⟨fuel, rfl⟩ := Nat.exists_eq_succ_of_ne_zero (Nat.ne_zero_of_lt hfuel)
      rw [readQuotedBreaks, atBorder_append p p double b y [], if_pos hborder]
      rfl
    · obtain ⟨u, r, rfl, hu, hr, htake⟩ := exists_spaces double hb p
      have hstep (fuel : Nat) (y : List Char) :
          readQuotedBreaks (fuel + 1) (p.spots (u ++ r ++ quoteOf double :: y)) =
            let r := (p.after u).spots (r ++ quoteOf double :: y)
            if isBreak (peek r) then
              (readQuotedBreaks fuel (takeBreak r).2).map fun p => ((takeBreak r).1 ++ p.1, p.2)
            else .ok ([], r) := by
        rw [readQuotedBreaks, atBorder_append p p double (u ++ r) y [], if_neg hborder,
          ← takeChars_snd, htake]
      have hspaces : ∀ c ∈ u, isSpace c ∨ isBreak c := fun c hc => .inl (hu c hc)
      cases r with
      | nil =>
        refine ⟨u, [], .ok [], fun fuel hfuel => ⟨rfl, hspaces, fun y => ?_⟩⟩
        obtain ⟨fuel, rfl⟩ := Nat.exists_eq_succ_of_ne_zero (Nat.ne_zero_of_lt hfuel)
        rw [hstep]
        cases double <;> rfl
      | cons c r =>
        by_cases hc : isBreak c
        · have hreturn : c ≠ '\r' := fun h => hb (by simp [h])
          obtain ⟨first, hfirst⟩ := exists_takeBreak hc hreturn
          obtain ⟨u', b', o, hrest⟩ := ih r.length (by simp; omega)
            (fun h => hb (by simp [h])) (((p.after u).next c)) rfl
          refine ⟨u ++ c :: u', b', o.map (first ++ ·), fun fuel hfuel => ?_⟩
          obtain ⟨fuel, rfl⟩ := Nat.exists_eq_succ_of_ne_zero (Nat.ne_zero_of_lt hfuel)
          refine (hrest fuel (by simp at hfuel; omega)).behind_break hspaces hc fun y => ?_
          have hpeek (r : Rest) : peek ((p.after u).spot c :: r) = c := rfl
          rw [hstep, List.cons_append, Cursor.spots_cons hreturn]
          dsimp only
          rw [hpeek, if_pos hc, hfirst]
        · refine ⟨u, c :: r, .ok [], fun fuel hfuel => ⟨rfl, hspaces, fun y => ?_⟩⟩
          obtain ⟨fuel, rfl⟩ := Nat.exists_eq_succ_of_ne_zero (Nat.ne_zero_of_lt hfuel)
          rw [hstep]
          dsimp only
          rw [Cursor.peek_spots, List.cons_append, List.headD_cons, if_neg hc]
          rfl

/-- A gap in a quoted text is read alike whatever stands behind the closing quote, and it is not
    empty. -/
theorem exists_readQuotedSpaces (double : Bool) {c : Char} (hb : '\r' ∉ c :: b)
    (hc : isSpace c ∨ isBreak c) (p : Cursor) :
    ∃ u b' o, u ≠ [] ∧ ReadsGap double p (c :: b)
      (fun y => readQuotedSpaces (p.spots (c :: b ++ quoteOf double :: y))) u b' o := by
  obtain ⟨u, r, hur, hu, hr, htake⟩ := exists_spaces double hb p
  have hspaces : ∀ c ∈ u, isSpace c ∨ isBreak c := fun c hc => .inl (hu c hc)
  have hstep (y : List Char) : readQuotedSpaces (p.spots (c :: b ++ quoteOf double :: y)) =
      let r := (p.after u).spots (r ++ quoteOf double :: y)
      if isBreak (peek r) then
        (readQuotedBreaks ((takeBreak r).2.length + 1) (takeBreak r).2).map fun p =>
          (foldBreaks (takeBreak r).1 p.1, p.2)
      else .ok (u, r) := by
    rw [readQuotedSpaces, htake]
  by_cases hbreak : ∃ d r', r = d :: r' ∧ isBreak d
  · obtain ⟨d, r', rfl, hd⟩ := hbreak
    have hreturn : d ≠ '\r' := fun h => hb (by rw [hur, h]; simp)
    obtain ⟨first, hfirst⟩ := exists_takeBreak hd hreturn
    have hr' : '\r' ∉ r' := fun h => hb (by rw [hur]; simp [h])
    obtain ⟨u', b', o, hrest⟩ := exists_readQuotedBreaks double hr' ((p.after u).next d)
    refine ⟨u ++ d :: u', b', o.map (foldBreaks first), by simp, ?_⟩
    have hread := ReadsGap.of_fuel hrest (fun y => (r' ++ quoteOf double :: y).length + 1)
      fun y => by rw [List.length_append]; omega
    rw [hur]
    refine hread.behind_break hspaces hd fun y => ?_
    have hpeek (r : Rest) : peek ((p.after u).spot d :: r) = d := rfl
    rw [← hur, hstep, List.cons_append, Cursor.spots_cons hreturn]
    dsimp only
    rw [hpeek, if_pos hd, hfirst, Cursor.length_spots]
  · have hhead (y : List Char) : isBreak ((r ++ quoteOf double :: y).headD endMark) = false := by
      cases r with
      | nil => cases double <;> rfl
      | cons d r => exact eq_false_of_ne_true fun hd => hbreak ⟨d, r, rfl, hd⟩
    refine ⟨u, r, .ok u, ?_, hur, hspaces, fun y => ?_⟩
    · rintro rfl
      rw [List.nil_append] at hur
      subst hur
      rcases hc with hc | hc
      · exact absurd (hr c rfl) (by simp [hc])
      · exact hbreak ⟨c, b, rfl, hc⟩
    · rw [hstep]
      dsimp only
      rw [Cursor.peek_spots, hhead, if_neg Bool.false_ne_true]
      rfl

/-- So is an escape, with the gap that an escaped line break goes on with. -/
theorem exists_readEscape {e : List Char} (he : IsEscape e) (hreturn : '\r' ∉ e) (hb : '\r' ∉ b)
    (p : Cursor) :
    ∃ u b' o, ReadsGap true (p.after e) b
      (fun y => readEscape (p.spots (e ++ (b ++ '"' :: y)))) u b' o := by
  cases he with
  | @short c hc =>
    obtain ⟨n, hn⟩ := Option.isSome_iff_exists.1 hc
    refine ⟨[], b, .ok [.char (Char.ofNat n)], rfl, nofun, fun y => ?_⟩
    have hc : c ≠ '\r' := fun h => hreturn (by simp [h])
    have hpeek (r : Rest) : peek (p.spot c :: r) = c := rfl
    rw [List.cons_append, Cursor.spots_cons hc, readEscape, hpeek, hn]
    rfl
  | @code c ds hc hlength =>
    refine ⟨[], b, (Numeral.inBase? 16 ds).elim (reject .badEscape) fun n =>
      (codePoint n).map fun p => [p], rfl, nofun, fun y => ?_⟩
    -- The digits of the code are looked up one by one, and they are all in front of what follows.
    have hdigits : (List.range ds.length).map (fun i =>
        peekAt (i + 1) (p.spots (c :: ds ++ (b ++ '"' :: y)))) = ds := by
      refine List.ext_getElem (by simp) fun i hi hi' => ?_
      simp only [List.getElem_map, List.getElem_range, Cursor.peekAt_spots]
      rw [List.cons_append, List.drop_succ_cons, List.headD_eq_head?_getD, List.head?_drop,
        List.getElem?_append_left hi', List.getElem?_eq_getElem hi', Option.getD_some]
    have hpeek : peek (p.spots (c :: ds ++ (b ++ '"' :: y))) = c := Cursor.peek_spots _ _
    rw [readEscape, hpeek, hc, hlength]
    dsimp only
    rw [hdigits]
    cases Numeral.inBase? 16 ds with
    | none => rfl
    | some n =>
      dsimp only [Option.elim_some]
      rw [← List.length_cons (a := c), Cursor.drop_spots hreturn]
      cases codePoint n <;> rfl
  | line =>
    obtain ⟨u, b', o, hrest⟩ := exists_readQuotedBreaks true hb (p.after ['\n'])
    have hread := ReadsGap.of_fuel hrest (fun y => (b ++ quoteOf true :: y).length + 2)
      fun y => by rw [List.length_append]; omega
    refine ⟨u, b', o.map (List.map .char), hread.map fun y => ?_⟩
    have hpeek (r : Rest) : peek (p.spot '\n' :: r) = '\n' := rfl
    have hlookup : shortEscapes.lookup '\n' = none := by decide
    rw [List.cons_append, List.nil_append, Cursor.spots_cons (by decide), readEscape, hpeek, hlookup,
      List.length_cons, Cursor.length_spots]
    rfl

/-! ## The closing quote -/

/-- At the closing quote a quoted text ends. -/
theorem readQuoted_quote {y : List Char} (hy : y.head? ≠ some (quoteOf double)) (p : Cursor)
    (fuel : Nat) : readQuoted double (fuel + 1) (p.spots (quoteOf double :: y)) =
      .ok ([], (p.next (quoteOf double)).spots y) := by
  cases double with
  | true =>
    rw [Cursor.spots_cons (by decide), readQuoted]
    rfl
  | false =>
    have hpeek : (peek ((p.next '\'').spots y) == '\'') = false := by
      rw [Cursor.peek_spots]
      cases y with
      | nil => rfl
      | cons c y => exact beq_false_of_ne fun h => hy (congrArg some h)
    rw [quoteOf, if_neg Bool.false_ne_true, Cursor.spots_cons (by decide), readQuoted,
      Cursor.spot_char, hpeek]
    rfl

/-- At a blank or a line break, all of the gap is read. -/
theorem readQuoted_gap {c : Char} (hc : isSpace c ∨ isBreak c) (hreturn : c ≠ '\r') (p : Cursor)
    (cs : List Char) (fuel : Nat) : readQuoted double (fuel + 1) (p.spots (c :: cs)) =
      (readQuotedSpaces (p.spots (c :: cs))).bind fun q =>
        (readQuoted double fuel q.2).map fun p => (q.1.map .char ++ p.1, p.2) := by
  rw [Cursor.spots_cons hreturn, readQuoted, Cursor.spot_char, if_pos (by simpa using hc)]
  rfl

/-- Any other character stands for itself. -/
theorem readQuoted_char {c : Char} (hgap : ¬(isSpace c ∨ isBreak c)) (hquote : c ≠ quoteOf double)
    (hbackslash : double → c ≠ '\\') (hreturn : c ≠ '\r') (p : Cursor) (cs : List Char) (fuel : Nat) :
    readQuoted double (fuel + 1) (p.spots (c :: cs)) =
      (readQuoted double fuel ((p.next c).spots cs)).map fun p => (.char c :: p.1, p.2) := by
  rw [not_or, Bool.not_eq_true, Bool.not_eq_true] at hgap
  rw [Cursor.spots_cons hreturn, readQuoted, Cursor.spot_char, hgap.1, hgap.2]
  cases double with
  | true => simp_all [quoteOf]
  | false => simp_all [quoteOf]

/-- A quoted text is read up to the closing quote, unless another quote stands behind it. What is read
    does not depend on what else is there. -/
def QuotedAs (double : Bool) (b : List Char) (p : Cursor) (o : Except Failure (List CodePoint)) :
    Prop :=
  ∀ y, y.head? ≠ some (quoteOf double) → ∀ fuel, b.length < fuel →
    readQuoted double fuel (p.spots (b ++ quoteOf double :: y)) =
      o.map fun text => (text, (p.after (b ++ [quoteOf double])).spots y)

namespace QuotedAs

variable {p : Cursor} {o o' : Except Failure (List CodePoint)}

/-- It is enough to look at one turn of the reader. -/
theorem of_turn (h : ∀ y, y.head? ≠ some (quoteOf double) → ∀ fuel, b.length ≤ fuel →
    readQuoted double (fuel + 1) (p.spots (b ++ quoteOf double :: y)) =
      o.map fun text => (text, (p.after (b ++ [quoteOf double])).spots y)) : QuotedAs double b p o := by
  intro y hy fuel hfuel
  obtain ⟨fuel, rfl⟩ := Nat.exists_eq_succ_of_ne_zero (Nat.ne_zero_of_lt hfuel)
  exact h y hy fuel (Nat.le_of_lt_succ hfuel)

theorem nil (p : Cursor) : QuotedAs double [] p (.ok []) :=
  .of_turn fun _ hy fuel _ => readQuoted_quote hy p fuel

theorem char {c : Char} (h : QuotedAs double b (p.next c) o) (hgap : ¬(isSpace c ∨ isBreak c))
    (hquote : c ≠ quoteOf double) (hbackslash : double → c ≠ '\\') (hreturn : c ≠ '\r') :
    QuotedAs double (c :: b) p (o.map (.char c :: ·)) := by
  refine .of_turn fun y hy fuel hfuel => ?_
  rw [List.cons_append, readQuoted_char hgap hquote hbackslash hreturn, h y hy fuel hfuel]
  cases o <;> rfl

/-- Two single quotes stand for one. -/
theorem twice (h : QuotedAs false b ((p.next '\'').next '\'') o) :
    QuotedAs false ('\'' :: '\'' :: b) p (o.map (.char '\'' :: ·)) := by
  refine .of_turn fun y hy fuel hfuel => ?_
  have hpair (cs : List Char) : readQuoted false (fuel + 1) (p.spots ('\'' :: '\'' :: cs)) =
      (readQuoted false fuel (((p.next '\'').next '\'').spots cs)).map fun p =>
        (.char '\'' :: p.1, p.2) := by
    rw [Cursor.spots_cons (by decide), Cursor.spots_cons (by decide)]
    rfl
  rw [List.cons_append, List.cons_append, hpair, h y hy fuel (Nat.lt_of_succ_le hfuel).le]
  cases o <;> rfl

/-- Behind a gap, reading goes on. -/
theorem behind_gap {f : List Char → Except Failure (List CodePoint × Rest)} {u b' : List Char}
    (hgap : ReadsGap double p b f u b' o) (h : QuotedAs double b' (p.after u) o') {y : List Char}
    (hy : y.head? ≠ some (quoteOf double)) {fuel : Nat} (hfuel : b'.length < fuel) :
    ((f y).bind fun q => (readQuoted double fuel q.2).map fun p => (q.1 ++ p.1, p.2)) =
      (o.bind fun cs => o'.map (cs ++ ·)).map fun text =>
        (text, (p.after (b ++ [quoteOf double])).spots y) := by
  rw [hgap.result, hgap.eq_append]
  cases o with
  | error f => rfl
  | ok cs =>
    change (readQuoted double fuel _).map _ = _
    rw [h y hy fuel hfuel, List.append_assoc, Cursor.after_append p u]
    cases o' <;> rfl

/-- A gap is read in one turn. -/
theorem gap {c : Char} (hc : isSpace c ∨ isBreak c) (hreturn : c ≠ '\r') {u b' : List Char}
    {spaces : Except Failure (List Char)}
    (hread : ReadsGap double p (c :: b)
      (fun y => readQuotedSpaces (p.spots (c :: b ++ quoteOf double :: y))) u b' spaces)
    (hlength : b'.length < (c :: b).length) (h : QuotedAs double b' (p.after u) o') :
    QuotedAs double (c :: b) p ((spaces.map (List.map .char)).bind fun ps => o'.map (ps ++ ·)) := by
  refine .of_turn fun y hy fuel hfuel => ?_
  rw [List.cons_append, readQuoted_gap hc hreturn, ← behind_gap (hread.map fun _ => rfl) h hy
    (hlength.trans_le hfuel), List.cons_append]
  cases readQuotedSpaces (p.spots (c :: (b ++ quoteOf double :: y))) <;> rfl

/-- An escape is read in one turn. -/
theorem escape {e u b' : List Char}
    (hread : ReadsGap true ((p.next '\\').after e) b
      (fun y => readEscape ((p.next '\\').spots (e ++ (b ++ '"' :: y)))) u b' o)
    (h : QuotedAs true b' (((p.next '\\').after e).after u) o') :
    QuotedAs true ('\\' :: (e ++ b)) p (o.bind fun cs => o'.map (cs ++ ·)) := by
  refine .of_turn fun y hy fuel hfuel => ?_
  have hescape (cs : List Char) : readQuoted true (fuel + 1) (p.spots ('\\' :: cs)) =
      (readEscape ((p.next '\\').spots cs)).bind fun q =>
        (readQuoted true fuel q.2).map fun p => (q.1 ++ p.1, p.2) := by
    rw [Cursor.spots_cons (by decide)]
    rfl
  have hlength : b'.length < fuel := by
    rw [hread.eq_append] at hfuel
    simp only [List.length_cons, List.length_append] at hfuel
    omega
  rw [List.cons_append, List.append_assoc, hescape, List.cons_append, List.append_assoc,
    Cursor.after_cons, Cursor.after_append]
  exact behind_gap hread h hy hlength

end QuotedAs

/-- A quoted text is read up to the next quote that is lonely. -/
theorem exists_quotedAs (hb : QuotedBody double b) (p : Cursor) : ∃ o, QuotedAs double b p o := by
  -- A gap is read as a whole, so the induction is on the length.
  induction hn : b.length using Nat.strong_induction_on generalizing b p with
  | _ n ih =>
    subst hn
    have hall := hb.not_mem_return
    cases hb with
    | nil => exact ⟨_, .nil p⟩
    | @char c b hquote hreturn hbackslash hb =>
      by_cases hgap : isSpace c ∨ isBreak c
      · obtain ⟨u, b', o, hu, hread⟩ := exists_readQuotedSpaces double hall hgap p
        have hlength : b'.length < (c :: b).length := by
          have := List.length_pos_iff.2 hu
          rw [hread.eq_append, List.length_append]
          omega
        have hb' : QuotedBody double b' := by
          have hcb : QuotedBody double (c :: b) := .char hquote hreturn hbackslash hb
          rw [hread.eq_append] at hcb
          exact hcb.of_append hread.gap
        obtain ⟨o', ho'⟩ := ih _ hlength hb' (p.after u) rfl
        exact ⟨_, .gap hgap hreturn hread hlength ho'⟩
      · obtain ⟨o, ho⟩ := ih b.length (by simp) hb (p.next c) rfl
        exact ⟨_, ho.char hgap hquote hbackslash hreturn⟩
    | @twice b hdouble hb =>
      subst hdouble
      obtain ⟨o, ho⟩ := ih b.length (by rw [List.length_cons, List.length_cons]; omega) hb
        ((p.next '\'').next '\'') rfl
      exact ⟨_, ho.twice⟩
    | @escape e b hdouble he hreturn hb =>
      subst hdouble
      obtain ⟨u, b', o, hread⟩ := exists_readEscape he hreturn hb.not_mem_return (p.next '\\')
      have hlength : b'.length < ('\\' :: (e ++ b)).length := by
        rw [hread.eq_append]
        simp
        omega
      rw [hread.eq_append] at hb
      obtain ⟨o', ho'⟩ := ih _ hlength (hb.of_append hread.gap) (((p.next '\\').after e).after u) rfl
      exact ⟨_, .escape hread ho'⟩

end Stencil.Yaml
