import Stencil.Proofs.BlockReading

/-!
# Reading written documents

The lines of a written collection are read one by one. A plain scalar in one of them ends in front of
the next line, since that one is set in no further than the collection, and it ends as well where
nothing but a last line break comes. So the tokens of a document are the same with and without the line
break at its end.

* `Lexer.Follows`, `Lexer.reads_scalarText`: a scalar in front of what cannot continue it;
* `Lexer.IsLine`, `Lexer.BehindMark`, `Lexer.BehindKey`: what is read as a line of a collection, and as
  a node in such a line;
* `Lexer.behindMark`, `Lexer.isLine_of_mem_entryLines`: nodes and lines are written so that they are;
* `Node.body`, `tokens_body_append`: a document without the line break at its end.
-/

namespace Stencil.Yaml

/-- A document without the line break at its end. -/
def Node.body : Node → List Char
  | .scalar tag text =>
    Node.scalarText true 2 0 tag text ++
      if Node.styleOf tag text = .plain then newLine 0 ++ ['.', '.', '.'] else []
  | .sequence _ [] => ['[', ']']
  | .sequence _ (n :: ns) => (newLine 0).intercalate (itemLines 0 (n :: ns))
  | .mapping _ [] => ['\x7b', '\x7d']
  | .mapping _ (e :: es) => (newLine 0).intercalate (entryLines 0 (e :: es))

theorem Node.text_eq_body_append (n : Node) : n.text = n.body ++ ['\n'] := by
  cases n with
  | scalar tag text =>
    rw [Node.text, Node.body]
    split <;> simp [newLine, blanks]
  | sequence tag items => cases items <;> rfl
  | mapping tag entries => cases entries <;> rfl

namespace Lexer

variable {l : Lexer} {p : Cursor} {column : Nat} {x y : List Char}

/-! ## What follows a node -/

/-- Whether a character can be the first one of a line, behind the blanks. -/
def beginsLine (c : Char) : Bool := c != ' ' && !isBreak c && c != byteOrderMark

/-- What follows a node of a collection at a column: nothing more than a line break and blanks, or a line
    that is set in no further than the collection. -/
def Follows (column : Nat) (y : List Char) : Prop :=
  y = [] ∨ ∃ n ≤ column, ∃ z, y = newLine n ++ z ∧ ∀ c ∈ z.head?, beginsLine c

theorem Follows.mono {column' : Nat} (h : Follows column y) (hle : column ≤ column') :
    Follows column' y :=
  h.imp_right fun ⟨n, hn, hz⟩ => ⟨n, hn.trans hle, hz⟩

theorem follows_newLine {z : List Char} {c : Char} (hc : beginsLine c) :
    Follows column (newLine column ++ c :: z) :=
  .inr ⟨column, Nat.le_refl _, _, rfl, by rintro d ⟨⟩; exact hc⟩

theorem allowKey_false (hl : l.keyAllowed = false) : l.allowKey false = l := by
  rw [allowKey, ← hl]

theorem Follows.ends (h : Follows column y) (q : Cursor) : Ends (column + 1) q y := by
  rcases h with rfl | ⟨n, hn, z, rfl, hz⟩
  · exact ⟨⟨rfl, .inl rfl⟩, nofun, fun l _ hl fuel => congrArg (run fuel · []) (allowKey_false hl)⟩
  · have hz' : ∀ c ∈ z.head?, c ≠ ' ' ∧ isBreak c = false := fun c hc => by
      simpa [beginsLine, and_assoc] using (by simpa [beginsLine] using hz c hc : _ ∧ _).1
    obtain ⟨spaces, hspaces, -⟩ := readPlainSpaces_newLine hz' q n
    refine ⟨⟨endsWord_of_isGap (by decide) _, .inr fun m hm => ?_⟩, ?_, fun l hl _ fuel => ?_⟩
    · rw [hspaces, Cursor.after_newLine] at hm
      cases z with
      | nil => cases hm
      | cons c z =>
        obtain rfl : n = m := Option.some.inj hm
        omega
    · rintro c ⟨⟩
      decide
    · rw [hspaces, run_newLine hl]

theorem ends_colon (h : GapFollows y) (least : Int) (q : Cursor) : Ends least q (':' :: y) := by
  have hspaces : readPlainSpaces (q.spots (':' :: y)) = ([], false, q.spots (':' :: y)) :=
    readPlainSpaces_blanks (by rintro c ⟨⟩; decide) q 0
  obtain ⟨c, z, rfl, hc⟩ := h
  refine ⟨⟨?_, .inl (by rw [hspaces])⟩, by rintro d ⟨⟩; decide, fun l _ hl fuel => ?_⟩
  · rw [endsWord, endsPlain, List.headD_cons, hc]
    rfl
  · rw [hspaces, allowKey_false hl]

/-- The end of a text, or a last line break. -/
def Closes (y : List Char) : Prop := y = [] ∨ y = ['\n']

theorem Closes.follows (h : Closes y) : Follows column y :=
  h.imp_right fun h => ⟨0, Nat.zero_le _, [], h, nofun⟩

/-- The mark for the end of a document ends a plain scalar. -/
theorem ends_border (h : Closes y) (q : Cursor) :
    Ends 0 q (newLine 0 ++ ['.', '.', '.'] ++ y) := by
  have hspaces : readPlainSpaces (q.spots (newLine 0 ++ ['.', '.', '.'] ++ y)) =
      ([], true, (q.next '\n').spots (['.', '.', '.'] ++ y)) := by
    rcases h with rfl | rfl <;> rfl
  refine ⟨⟨endsWord_of_isGap (by decide) _, .inl (by rw [hspaces])⟩, by rintro c ⟨⟩; decide,
    fun l hl _ fuel => ?_⟩
  rw [hspaces]
  exact (run_newLine hl q 0 _ fuel).symm

/-! ## Scalars -/

theorem beginsLine_of_plainStart {c : Char} {r : List Char} (h : PlainStart c r) : beginsLine c := by
  have hblank : c ≠ ' ' := ne_of_not_isGap h.gap (by decide)
  have hmark : c ≠ byteOrderMark := by
    rintro rfl
    exact absurd h.shown (by decide)
  simp [beginsLine, hblank, hmark, isBreak_of_not_isGap h.gap]

/-- A text without quotes has no surrogates, and is read as it is. -/
theorem exists_of_styleOf_eq_plain {tag : Tag} {text : CodeText}
    (h : Node.styleOf tag text = .plain) : ∃ s, text = .whole s ∧ Style.allowsPlain s.toList := by
  cases text with
  | whole s => exact ⟨s, rfl, allowsPlain_of_ofText h⟩
  | ragged t => cases h

/-- Any other text stands between quotes. -/
theorem exists_quotedBody_scalarText {tag : Tag} {text : CodeText}
    (h : Node.styleOf tag text ≠ .plain) (folds : Bool) (indent column : Nat) : ∃ double b,
      Node.scalarText folds indent column tag text = quoteOf double :: (b ++ [quoteOf double]) ∧
        QuotedBody double b := by
  cases text with
  | whole s => exact exists_quotedBody h ⟨folds, indent⟩ column
  | ragged t =>
    exact ⟨true, _, rfl, (quotedBody_escaped ⟨folds, indent⟩ t.codes true false (column + 1)).1⟩

/-- A scalar begins as a line does, unless nothing is written for it. -/
theorem scalarText_eq_nil_or (folds : Bool) (indent column : Nat) (tag : Tag) (text : CodeText) :
    (text = .whole "" ∧ Node.styleOf tag text = .plain) ∨
      ∃ c r, Node.scalarText folds indent column tag text = c :: r ∧ beginsLine c := by
  by_cases hstyle : Node.styleOf tag text = .plain
  · obtain ⟨s, rfl, hplain⟩ := exists_of_styleOf_eq_plain hstyle
    by_cases htext : s = ""
    · exact .inl ⟨congrArg _ htext, hstyle⟩
    · obtain ⟨c, r, hwrite, hstart⟩ := exists_plainStart hplain
        (fun hnil => htext (String.toList_eq_nil_iff.1 hnil)) ⟨folds, indent⟩ column
      rw [Node.scalarText, hstyle]
      exact .inr ⟨c, r, hwrite, beginsLine_of_plainStart hstart⟩
  · obtain ⟨double, b, hwrite, -⟩ := exists_quotedBody_scalarText hstyle folds indent column
    exact .inr ⟨_, _, hwrite, by cases double <;> decide⟩

/-- A scalar that is not empty is read up to its end. -/
theorem reads_scalarText (h : Level l p) {folds : Bool} {indent column : Nat} {tag : Tag}
    {text : CodeText} (hx : x = Node.scalarText folds indent column tag text) (hne : x ≠ []) (hpos : 0 < indent)
    {Y : List Char → Prop} (hquote : ∀ y, Y y → ∀ c ∈ y.head?, c ∉ ['-', '.', '"', '\''])
    (hY : ∀ l₁, Ready l p l₁ → l₁.indent + 1 ≤ indent ∧
      ∀ y, Y y → Ends (l₁.indent + 1) (p.after x) y) :
    Reads l p x Y (NodeRead l p (p.after x)) := by
  by_cases hstyle : Node.styleOf tag text = .plain
  · obtain ⟨s, rfl, hplain⟩ := exists_of_styleOf_eq_plain hstyle
    rw [Node.scalarText, hstyle] at hx
    have hcs : s.toList ≠ [] := by
      intro hcs
      rw [hcs] at hx
      exact hne hx
    subst hx
    exact reads_plain h hplain hcs hpos column hY
  · obtain ⟨double, b, hwrite, hb⟩ := exists_quotedBody_scalarText hstyle folds indent column
    rw [hwrite] at hx
    subst hx
    refine (reads_quoted h hb).mono (fun y hy hhead => ?_) fun _ h => h
    refine hquote y hy _ hhead ?_
    cases double <;> decide

/-- A scalar in a collection. -/
theorem reads_scalarText_of_follows (h : Level l p) (hp : l.indent ≤ p.column) {indent : Nat}
    (hindent : l.indent = indent) (n : Nat) (tag : Tag) (text : CodeText) :
    let x := Node.scalarText true (indent + 2) n tag text
    Reads l p x (Follows indent) (Level · (p.after x)) := by
  intro x
  by_cases hne : x = []
  · rw [hne]
    exact .nil h
  · refine (reads_scalarText h rfl hne (by omega) (fun y hy => ?_) fun l₁ hl₁ => ?_).mono
      (fun _ hy => hy) fun _ hread => hread.level
    · exact (hy.ends p).head
    · rw [hl₁.indent_eq hp, hindent]
      exact ⟨by omega, fun y hy => hy.ends _⟩

/-! ## Lines of collections -/

/-- A line of a collection at a column is read in front of the next one. -/
structure IsLine (column : Nat) (x : List Char) : Prop where
  begins : ∃ c r, x = c :: r ∧ beginsLine c
  reads (l : Lexer) (p : Cursor) (h : Level l p) (hallowed : l.keyAllowed = true)
    (hcolumn : p.column = column) : Reads l p x (Follows column) (Level · (p.after x))

/-- A node behind a mark at a column is read in front of the next line. -/
structure BehindMark (column : Nat) (x : List Char) : Prop where
  gap : ∃ c r, x = c :: r ∧ isGap c
  reads (l : Lexer) (p : Cursor) (h : IsMarked column p l) (hcolumn : p.column = column + 1) :
    Reads l p x (Follows column) (Level · (p.after x))

/-- A node behind the key of a mapping at a column is read in front of the next line. -/
structure BehindKey (column : Nat) (x : List Char) : Prop where
  gap : ∃ c r, x = c :: r ∧ isGap c
  reads (l : Lexer) (p : Cursor) (h : Level l p) (hindent : l.indent = column)
    (hcolumn : column ≤ p.column) : Reads l p x (Follows column) (Level · (p.after x))

/-- A line is read behind a line break and the blanks in front of it. -/
theorem reads_line (h : Level l p) (hx : IsLine column x) : Reads l p (newLine column ++ x)
    (Follows column) (Level · (p.after (newLine column ++ x))) := by
  refine .behind_newLine h.inFlow ?_
  rw [Cursor.after_append]
  exact hx.reads _ _ ((h.allowKey true).of_le (Cursor.line_le_after _ _)) rfl
    (by rw [Cursor.after_newLine])

theorem BehindKey.behindMark (h : BehindKey column x) : BehindMark column x :=
  ⟨h.gap, fun l p hl hp => h.reads l p hl.1 hl.2.1 (by omega)⟩

/-- Lines with line breaks between them are read one after the other, and begin as a line does. -/
theorem isLine_intercalate {xs : List (List Char)} (h : ∀ x ∈ xs, IsLine column x) (hne : xs ≠ []) :
    IsLine column ((newLine column).intercalate xs) := by
  induction xs with
  | nil => exact absurd rfl hne
  | cons x xs ih =>
    rw [List.forall_mem_cons] at h
    cases xs with
    | nil =>
      rw [List.intercalate_singleton]
      exact h.1
    | cons x' xs =>
      obtain ⟨hx, hxs⟩ := h
      specialize ih hxs (List.cons_ne_nil x' xs)
      obtain ⟨c, r, hbegins, hc⟩ := ih.begins
      rw [List.intercalate_cons_cons, List.append_assoc]
      refine ⟨?_, fun l p hl hallowed hp => ?_⟩
      · obtain ⟨d, z, rfl, hd⟩ := hx.begins
        exact ⟨d, _, rfl, hd⟩
      · refine (hx.reads l p hl hallowed hp).append (fun l' hl' => ?_) fun y _ => ?_
        · rw [Cursor.after_append]
          exact reads_line hl' ih
        · rw [hbegins, List.append_assoc]
          exact follows_newLine hc

/-! ## Nodes behind marks and keys -/

/-- A scalar or an empty collection stands behind a blank. -/
theorem behindKey_of_reads (h : ∀ l p, Level l p → l.indent = column → column ≤ p.column →
    Reads l p x (Follows column) (Level · (p.after x))) : BehindKey column (' ' :: x) := by
  refine ⟨⟨' ', x, rfl, by decide⟩, fun l p hl hindent hp => .behind_blank ?_⟩
  exact h l (p.next ' ') (hl.of_le (line_next (by decide) p)) hindent (Nat.le_succ_of_le hp)

theorem behindKey_scalar (column n : Nat) (tag : Tag) (text : CodeText) :
    BehindKey column (' ' :: Node.scalarText true (column + 2) n tag text) :=
  behindKey_of_reads fun _ _ hl hindent hp =>
    reads_scalarText_of_follows hl (by omega) hindent n tag text

theorem behindKey_emptySequence (column : Nat) : BehindKey column [' ', '[', ']'] :=
  behindKey_of_reads fun _ _ hl _ _ =>
    (reads_emptySequence hl).mono (fun _ _ => trivial) fun _ h => h.level

theorem behindKey_emptyMapping (column : Nat) : BehindKey column [' ', '\x7b', '\x7d'] :=
  behindKey_of_reads fun _ _ hl _ _ =>
    (reads_emptyMapping hl).mono (fun _ _ => trivial) fun _ h => h.level

/-- A collection may begin on the line of its mark. -/
theorem behindMark_of_isLine (h : IsLine (column + 2) x) : BehindMark column (' ' :: x) := by
  refine ⟨⟨' ', x, rfl, by decide⟩, fun l p hl hp => .behind_blank ?_⟩
  refine (h.reads l (p.next ' ') (hl.1.of_le (line_next (by decide) p)) hl.2.2 ?_).mono
    (fun y hy => hy.mono (Nat.le_add_right column 2)) fun _ h => h
  exact congrArg (· + 1) hp

/-- A collection behind a key begins on the next line. -/
theorem behindKey_of_isLine {n : Nat} (h : IsLine n x) (hn : column ≤ n) :
    BehindKey column (newLine n ++ x) :=
  ⟨⟨'\n', blanks n ++ x, rfl, by decide⟩, fun _ _ hl _ _ =>
    (reads_line hl h).mono (fun _ hy => hy.mono hn) fun _ h => h⟩

/-! ## Items and entries -/

theorem gapFollows_append (h : ∃ c r, x = c :: r ∧ isGap c) (y : List Char) : GapFollows (x ++ y) := by
  obtain ⟨c, r, rfl, hc⟩ := h
  exact ⟨c, r ++ y, rfl, hc⟩

theorem isLine_item (h : BehindMark column x) : IsLine column ('-' :: x) := by
  refine ⟨⟨'-', x, rfl, by decide⟩, ?_⟩
  rintro l p hl - rfl
  exact (reads_dash hl).append (z := x) (fun l' hl' => h.reads l' _ hl' rfl)
    fun y _ => gapFollows_append h.gap y

/-- The line of a value whose key stands on lines of its own. -/
theorem reads_valueLine (h : Level l p) (hx : BehindMark column x) :
    Reads l p (newLine column ++ ':' :: x) (Follows column)
      (Level · (p.after (newLine column ++ ':' :: x))) := by
  refine .behind_newLine h.inFlow ?_
  have hcolumn : (p.after (newLine column)).column = column := by rw [Cursor.after_newLine]
  have hline : p.line < (p.after (newLine column)).line := by
    rw [Cursor.after_newLine]
    exact Nat.lt_succ_self _
  have hcolon := reads_colon_of_line ((h.allowKey true).of_le hline.le) fun k hk =>
    (h.line k hk).trans_lt hline
  rw [hcolumn] at hcolon
  refine hcolon.append (z := x) (fun l' hl' => ?_) fun y _ => gapFollows_append hx.gap y
  rw [Cursor.after_append, Cursor.after_cons]
  exact hx.reads l' _ hl' (congrArg (· + 1) hcolumn)

/-- A key behind a question mark, and its value on another line. -/
theorem isLine_explicit (hx : BehindMark column x) (hy : BehindMark column y) :
    IsLine column ('?' :: x ++ newLine column ++ ':' :: y) := by
  refine ⟨⟨'?', _, rfl, by decide⟩, ?_⟩
  rintro l p hl - rfl
  rw [List.append_assoc]
  refine (reads_question hl).append (z := x ++ (newLine p.column ++ ':' :: y)) (fun l' hl' => ?_)
    fun z _ => ?_
  · refine (hx.reads l' _ hl' rfl).append (fun l'' hl'' => ?_) fun z _ => ?_
    · rw [List.cons_append, Cursor.after_cons, Cursor.after_append]
      exact reads_valueLine hl'' hy
    · rw [List.append_assoc]
      exact follows_newLine (by decide)
  · rw [List.append_assoc]
    exact gapFollows_append hx.gap _

/-- What stands behind a key: a colon with a gap behind it. -/
def ColonFollows (y : List Char) : Prop := ∃ z, y = ':' :: z ∧ GapFollows z

theorem ne_empty_of_isInlineKey {tag : Tag} {text : CodeText}
    (h : (Node.scalar tag text).isInlineKey) : text ≠ .whole "" := by
  rintro rfl
  cases h

theorem exists_inlineKey_eq_cons {k : Node} (hk : k.isInlineKey) (column : Nat) :
    ∃ c r, k.inlineKey column = c :: r ∧ beginsLine c := by
  cases k with
  | scalar tag text =>
    exact (scalarText_eq_nil_or _ _ _ _ _).resolve_left fun h => ne_empty_of_isInlineKey hk h.1
  | sequence tag items => exact ⟨'[', [']'], rfl, by decide⟩
  | mapping tag entries => exact ⟨'\x7b', ['\x7d'], rfl, by decide⟩

theorem reads_inlineKey {k : Node} (hk : k.isInlineKey) (h : Level l p) :
    Reads l p (k.inlineKey p.column) ColonFollows (NodeRead l p (p.after (k.inlineKey p.column))) := by
  cases k with
  | scalar tag text =>
    have hne : Node.scalarText false (p.column + 2) p.column tag text ≠ [] := by
      obtain ⟨c, r, hx, -⟩ := exists_inlineKey_eq_cons hk p.column
      rw [Node.inlineKey] at hx
      exact ne_of_eq_of_ne hx (List.cons_ne_nil c r)
    refine reads_scalarText h rfl hne (by omega) ?_ fun l₁ hl₁ => ⟨?_, ?_⟩
    · rintro _ ⟨z, rfl, -⟩ c ⟨⟩
      decide
    · have := hl₁.indent_le
      push_cast
      omega
    · rintro _ ⟨z, rfl, hz⟩
      exact ends_colon hz _ _
  | sequence tag items => exact (reads_emptySequence h).mono (fun _ _ => trivial) fun _ h => h
  | mapping tag entries => exact (reads_emptyMapping h).mono (fun _ _ => trivial) fun _ h => h

/-- A key in front of its value stands on one line. -/
theorem isBreak_of_mem_inlineKey {k : Node} (hk : k.isInlineKey) (column : Nat) :
    ∀ c ∈ k.inlineKey column, isBreak c = false := by
  cases k with
  | scalar tag text =>
    cases text with
    | whole s =>
      simp only [Node.isInlineKey, Bool.and_eq_true, Bool.not_eq_true', List.any_eq_false] at hk
      exact isBreak_of_mem_write (fun c hc => eq_false_of_ne_true (hk.1.2 c hc)) _ rfl _
    | ragged t => exact isBreak_of_mem_writeDouble rfl column t.codes
  | sequence tag items => exact List.forall_mem_cons.2 ⟨rfl, List.forall_mem_singleton.2 rfl⟩
  | mapping tag entries => exact List.forall_mem_cons.2 ⟨rfl, List.forall_mem_singleton.2 rfl⟩

/-- A key in front of its value. -/
theorem isLine_entry {k : Node} (hk : k.isInlineKey) (hx : BehindKey column x) :
    IsLine column (k.inlineKey column ++ [':'] ++ x) := by
  refine ⟨?_, ?_⟩
  · obtain ⟨c, r, hkey, hc⟩ := exists_inlineKey_eq_cons hk column
    exact ⟨c, _, by rw [hkey]; rfl, hc⟩
  rintro l p hl hallowed rfl
  have hcolon : Reads l p (k.inlineKey p.column ++ [':']) GapFollows fun l' =>
      Level l' (p.after (k.inlineKey p.column ++ [':'])) ∧ l'.indent = p.column := by
    refine (reads_inlineKey hk hl).append (fun l' hl' => ?_) fun z hz => ⟨z, rfl, hz⟩
    rw [Cursor.after_append]
    exact reads_colon ⟨hl'.level, hl'.indent, hl'.allowed, hl'.column hallowed⟩
  refine hcolon.append (fun l' hl' => ?_) fun z _ => gapFollows_append hx.gap z
  rw [Cursor.after_append _ _ x]
  -- The key stands on one line, so the colon is not to the left of its column.
  refine hx.reads l' _ hl'.1 hl'.2 (Cursor.column_le_after p ?_)
  rw [List.forall_mem_append]
  exact ⟨isBreak_of_mem_inlineKey hk _, List.forall_mem_singleton.2 rfl⟩

/-! ## Nodes -/

theorem itemLines_ne_nil (column : Nat) (n : Node) (ns : List Node) :
    Node.itemLines column (n :: ns) ≠ [] := by
  rw [Node.itemLines]
  exact List.cons_ne_nil _ _

theorem entryLines_ne_nil (column : Nat) (e : Node × Node) (es : List (Node × Node)) :
    Node.entryLines column (e :: es) ≠ [] := by
  rw [Node.entryLines]
  exact List.cons_ne_nil _ _

mutual

/-- A node is read behind a mark, -/
theorem behindMark : (n : Node) → (column : Nat) → BehindMark column (n.afterMark column)
  | .scalar tag text, column => by
    rw [Node.afterMark]
    exact (behindKey_scalar column (column + 2) tag text).behindMark
  | .sequence _ [], column => by
    rw [Node.afterMark]
    exact (behindKey_emptySequence column).behindMark
  | .sequence _ (n :: ns), column => by
    rw [Node.afterMark]
    exact behindMark_of_isLine
      (isLine_intercalate (isLine_of_mem_itemLines (n :: ns) (column + 2)) (itemLines_ne_nil _ n ns))
  | .mapping _ [], column => by
    rw [Node.afterMark]
    exact (behindKey_emptyMapping column).behindMark
  | .mapping _ (e :: es), column => by
    rw [Node.afterMark]
    exact behindMark_of_isLine
      (isLine_intercalate (isLine_of_mem_entryLines (e :: es) (column + 2)) (entryLines_ne_nil _ e es))

/-- and behind a key in front of its value. -/
theorem behindKey : (n : Node) → (column m : Nat) → BehindKey column (n.afterKey column m)
  | .scalar tag text, column, m => by
    rw [Node.afterKey]
    exact behindKey_scalar column (m + 1) tag text
  | .sequence _ [], column, _ => by
    rw [Node.afterKey]
    exact behindKey_emptySequence column
  | .sequence _ (n :: ns), column, _ => by
    rw [Node.afterKey]
    exact behindKey_of_isLine
      (isLine_intercalate (isLine_of_mem_itemLines (n :: ns) column) (itemLines_ne_nil _ n ns))
      (Nat.le_refl _)
  | .mapping _ [], column, _ => by
    rw [Node.afterKey]
    exact behindKey_emptyMapping column
  | .mapping _ (e :: es), column, _ => by
    rw [Node.afterKey]
    exact behindKey_of_isLine
      (isLine_intercalate (isLine_of_mem_entryLines (e :: es) (column + 2)) (entryLines_ne_nil _ e es))
      (Nat.le_add_right _ _)

/-- The items of a sequence are lines, -/
theorem isLine_of_mem_itemLines :
    (ns : List Node) → (column : Nat) → ∀ x ∈ Node.itemLines column ns, IsLine column x
  | [], _ => fun _ hx => by rw [Node.itemLines] at hx; cases hx
  | n :: ns, column => by
    rw [Node.itemLines, List.forall_mem_cons]
    exact ⟨isLine_item (behindMark n column), isLine_of_mem_itemLines ns column⟩

/-- and the entries of a mapping are. -/
theorem isLine_of_mem_entryLines :
    (es : List (Node × Node)) → (column : Nat) → ∀ x ∈ Node.entryLines column es, IsLine column x
  | [], _ => fun _ hx => by rw [Node.entryLines] at hx; cases hx
  | (k, v) :: es, column => by
    rw [Node.entryLines, List.forall_mem_cons]
    refine ⟨?_, isLine_of_mem_entryLines es column⟩
    split
    · next hk => exact isLine_entry hk (behindKey v column _)
    · exact isLine_explicit (behindMark k column) (behindMark v column)

end

/-! ## Documents -/

theorem level_start : Level start ⟨0, 0, 0⟩ :=
  ⟨rfl, .inl rfl, fun k hk => by cases List.mem_singleton.1 hk⟩

/-- The mark for the end of a document. -/
theorem reads_documentEnd (h : Level l p) (hp : p.column = 0) :
    Reads l p ['.', '.', '.'] Closes (·.inFlow = false) := by
  refine .of_token (by decide) ?_
  rcases exists_ready h '.' with ⟨f, hf⟩ | ⟨l₁, htoken, hready⟩
  · exact ⟨.error f, nofun, fun y _ => hf _⟩
  · refine ⟨l₁.border .documentEnd, fun l' hl' => ?_, fun y hy => ?_⟩
    · obtain ⟨l₂, hdrop, hl'⟩ := exists_of_bind_eq_ok hl'
      cases hl'
      rw [close, hready.level.inFlow, if_neg Bool.false_ne_true] at hdrop
      obtain ⟨hkeys, -, hbase, -, -⟩ :=
        closeTo_spec (-1) (Int.le_refl _) l₁.indents l₁ hready.level.base
      have hlevel : Level (closeTo (-1) l₁ l₁.indents) p :=
        ⟨by rw [hkeys, hready.level.flow], hbase, by rw [hkeys]; exact hready.level.line⟩
      exact (dropKey_spec hlevel hdrop).1.inFlow
    · have hcolumn : (p.spot '.').column = 0 := hp
      have hborder : isBorder '.' (p.spot '.' :: (p.next '.').spots ('.' :: '.' :: y)) = true := by
        rcases hy with rfl | rfl <;> rfl
      have hdash : isBorder '-' (p.spot '.' :: (p.next '.').spots ('.' :: '.' :: y)) = false := rfl
      have hdrop : ((p.next '.').spots ('.' :: '.' :: y)).drop 2 = (p.after ['.', '.', '.']).spots y :=
        Cursor.drop_spots (show '\r' ∉ ['.', '.'] by decide) _
      rw [htoken, ← hdrop]
      simp [step, hcolumn, hborder, hdash]

/-- A plain scalar in front of the mark for the end of the document. -/
theorem reads_plainBody (tag : Tag) (text : CodeText) :
    Reads start ⟨0, 0, 0⟩ (Node.scalarText true 2 0 tag text ++ (newLine 0 ++ ['.', '.', '.'])) Closes
      (·.inFlow = false) := by
  have hscalar : Reads start ⟨0, 0, 0⟩ (Node.scalarText true 2 0 tag text)
      (fun y => ∃ z, Closes z ∧ y = newLine 0 ++ ['.', '.', '.'] ++ z)
      fun l => Level l (Cursor.after ⟨0, 0, 0⟩ (Node.scalarText true 2 0 tag text)) := by
    by_cases hne : Node.scalarText true 2 0 tag text = []
    · rw [hne]
      exact .nil level_start
    · refine (reads_scalarText level_start rfl hne (by decide) ?_ fun l₁ hl₁ => ?_).mono
        (fun _ hy => hy) fun _ h => h.level
      · rintro _ ⟨z, -, rfl⟩ c ⟨⟩
        decide
      · have hindent : l₁.indent = -1 := hl₁.indent_eq (by decide)
        rw [hindent]
        refine ⟨by decide, ?_⟩
        rintro _ ⟨z, hz, rfl⟩
        exact ends_border hz _
  refine hscalar.append (fun l hl => .behind_newLine hl.inFlow ?_) fun z hz => ⟨z, hz, rfl⟩
  exact reads_documentEnd ((hl.allowKey true).of_le (Cursor.line_le_after _ _))
    (by rw [Cursor.after_newLine])

theorem isLine_body_sequence (tag : Tag) (items : List Node) :
    IsLine 0 (Node.sequence tag items).body := by
  cases items with
  | nil =>
    exact ⟨⟨'[', [']'], rfl, by decide⟩, fun _ _ hl _ _ =>
      (reads_emptySequence hl).mono (fun _ _ => trivial) fun _ h => h.level⟩
  | cons n ns =>
    exact isLine_intercalate (isLine_of_mem_itemLines (n :: ns) 0) (itemLines_ne_nil 0 n ns)

theorem isLine_body_mapping (tag : Tag) (entries : List (Node × Node)) :
    IsLine 0 (Node.mapping tag entries).body := by
  cases entries with
  | nil =>
    exact ⟨⟨'\x7b', ['\x7d'], rfl, by decide⟩, fun _ _ hl _ _ =>
      (reads_emptyMapping hl).mono (fun _ _ => trivial) fun _ h => h.level⟩
  | cons e es =>
    exact isLine_intercalate (isLine_of_mem_entryLines (e :: es) 0) (entryLines_ne_nil 0 e es)

/-- A document is read up to the line break at its end, whether there is one or not. -/
theorem reads_body (n : Node) : Reads start ⟨0, 0, 0⟩ n.body Closes (·.inFlow = false) := by
  have hline {x : List Char} (hx : IsLine 0 x) : Reads start ⟨0, 0, 0⟩ x Closes (·.inFlow = false) :=
    (hx.reads start ⟨0, 0, 0⟩ level_start rfl rfl).mono (fun _ hy => hy.follows) fun _ h => h.inFlow
  cases n with
  | scalar tag text =>
    rw [Node.body]
    split
    · exact reads_plainBody tag text
    · next hstyle =>
      obtain ⟨double, b, hwrite, hb⟩ := exists_quotedBody_scalarText hstyle true 2 0
      rw [List.append_nil, hwrite]
      refine (reads_quoted level_start hb).mono (fun y hy => ?_) fun _ h => h.level.inFlow
      rcases hy with rfl | rfl <;> cases double <;> decide
  | sequence tag items => exact hline (isLine_body_sequence tag items)
  | mapping tag entries => exact hline (isLine_body_mapping tag entries)

/-- No document begins with the mark of the byte order. -/
theorem head?_body_ne (n : Node) : n.body.head? ≠ some byteOrderMark := by
  have hbegins {x : List Char} (hx : ∃ c r, x = c :: r ∧ beginsLine c) :
      x.head? ≠ some byteOrderMark := by
    obtain ⟨c, r, rfl, hc⟩ := hx
    rintro ⟨⟩
    exact absurd hc (by decide)
  cases n with
  | scalar tag text =>
    rw [Node.body]
    rcases scalarText_eq_nil_or true 2 0 tag text with ⟨rfl, hstyle⟩ | ⟨c, r, hx, hc⟩
    · rw [if_pos hstyle, Node.scalarText, hstyle]
      decide
    · rw [hx]
      exact hbegins ⟨c, _, rfl, hc⟩
  | sequence tag items => exact hbegins (isLine_body_sequence tag items).begins
  | mapping tag entries => exact hbegins (isLine_body_mapping tag entries).begins

/-! ## The end of a text -/

theorem closeTo_allowKey (column : Int) (l : Lexer) (allowed : Bool) (outers : List Int) :
    closeTo column (l.allowKey allowed) outers = (closeTo column l outers).allowKey allowed := by
  induction outers generalizing l with
  | nil => rfl
  | cons outer outers ih =>
    by_cases h : column < l.indent
    · rw [closeTo, closeTo, if_pos h, ← ih]
      exact if_pos h
    · rw [closeTo, closeTo, if_neg h]
      exact if_neg h

theorem dropKey_allowKey (l : Lexer) (allowed : Bool) :
    (l.allowKey allowed).dropKey = l.dropKey.map (·.allowKey allowed) := by
  obtain ⟨tokens, indent, indents, keyAllowed, keys⟩ := l
  match keys with
  | [] => rfl
  | none :: keys => rfl
  | some k :: keys => cases hk : k.required <;> simp [allowKey, dropKey, hk, reject, Except.map]

theorem finish_allowKey (l : Lexer) (allowed : Bool) :
    (l.allowKey allowed).finish = l.finish.map (·.allowKey allowed) := by
  have hclose : (l.allowKey allowed).close (-1) = (l.close (-1)).allowKey allowed := by
    have hflow : (l.allowKey allowed).inFlow = l.inFlow := rfl
    rw [close, close, hflow]
    split
    · rfl
    · exact closeTo_allowKey _ _ _ _
  rw [finish, finish, hclose, dropKey_allowKey]
  cases (l.close (-1)).dropKey <;> rfl

/-- At the end of a text it does not matter whether a key may begin there. -/
theorem run_allowKey (l : Lexer) (allowed : Bool) (fuel : Nat) :
    run (fuel + 1) (l.allowKey allowed) [] = run (fuel + 1) l [] := by
  have hskip : skipToToken false [] = (false, []) := rfl
  rw [run, run, hskip]
  dsimp only
  rw [Bool.false_and, Bool.false_and, if_neg Bool.false_ne_true, if_neg Bool.false_ne_true,
    finish_allowKey]
  cases l.finish <;> rfl

end Lexer

/-- No mark of the byte order is passed over. -/
theorem withoutMark_body_append (n : Node) {y : List Char} (hy : Lexer.Closes y) :
    withoutMark (spots (n.body ++ y)) = Cursor.spots ⟨0, 0, 0⟩ (n.body ++ y) := by
  have hpeek : peek (spots (n.body ++ y)) = (n.body ++ y).headD endMark :=
    Cursor.peek_spots ⟨0, 0, 0⟩ _
  rw [withoutMark, hpeek, if_neg]
  · rfl
  · have hhead := Lexer.head?_body_ne n
    cases hbody : n.body with
    | nil => rcases hy with rfl | rfl <;> decide
    | cons c r =>
      rw [hbody] at hhead
      exact fun h => hhead (congrArg some h)

/-- A line break at its end changes nothing about the tokens of a document. -/
theorem tokens_body_append (n : Node) : Token.ofText (n.body ++ ['\n']) = Token.ofText n.body := by
  -- One more character is one more turn of fuel. Behind the document both runs are in the same state,
  -- but for whether a key may begin, and there is nothing left that could be one.
  obtain ⟨turns, hturns, o, ho, hrun⟩ := Lexer.reads_body n
  obtain ⟨fuel, hfuel⟩ := Nat.exists_eq_add_of_le hturns
  have hrunBody := hrun [] (.inl rfl) (fuel + 1)
  rw [← withoutMark_body_append n (.inl rfl), List.append_nil, Nat.add_right_comm, Nat.add_comm fuel,
    ← hfuel] at hrunBody
  have hrunText := hrun ['\n'] (.inr rfl) (fuel + 2)
  have hlength : (n.body ++ ['\n']).length + 1 = fuel + 2 + turns := by
    rw [List.length_append, hfuel, List.length_singleton]
    omega
  rw [← withoutMark_body_append n (.inr rfl), ← hlength] at hrunText
  have hallowed : ['\n'].find? (fun c => !isAllowed c) = none := by decide
  rw [Token.ofText, Token.ofText, List.find?_append, hallowed, Option.or_none]
  cases n.body.find? fun c => !isAllowed c with
  | some c => rfl
  | none =>
    dsimp only
    rw [hrunText, hrunBody]
    cases o with
    | error tokens => rfl
    | ok l =>
      rw [Lexer.continued, Lexer.continued, Lexer.run_break (ho l rfl)]
      exact Lexer.run_allowKey l true (fuel + 1)

end Stencil.Yaml
