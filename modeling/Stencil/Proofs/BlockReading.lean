import Stencil.Proofs.FileHistory
import Stencil.Proofs.WrittenScalars
import Stencil.Yaml.Writer

/-!
# Reading tokens

A written document is read token by token, and what is read of a part of it does not depend on what
stands behind that part. Of the state of the lexer it has to be known for this which collection is the
innermost one, since a plain scalar ends in front of a line that is set in no further, and where a key
may have begun.

* `Lexer.Reads`, `Lexer.Reads.append`: a text is read in a way that does not depend on what follows;
* `Lexer.Level`, `Lexer.exists_ready`: outside of brackets, and what happens in front of every token;
* `Lexer.reads_dash`, `Lexer.reads_question`, `Lexer.reads_colon`: marks with gaps behind them;
* `Lexer.reads_quoted`, `Lexer.reads_brackets`, `Lexer.reads_plain`: scalars and empty collections.
-/

namespace Stencil.Yaml

namespace Lexer

variable {l : Lexer} {p : Cursor}

/-! ## Turns of the lexer -/

/-- The next token, with the characters in front of it skipped already. -/
def token (l : Lexer) (s : Spot) (r : Rest) : Except Failure (Lexer × Rest) := do
  let keys ← dropStale s l.keys
  ({ l with keys }.close s.column).step s r

/-- Whether a character is skipped in front of a token. -/
def isSkipped (c : Char) : Bool := c == ' ' || c == '#' || isBreak c

theorem run_token {s : Spot} (hs : isSkipped s.char = false) (l : Lexer) (r : Rest) (fuel : Nat) :
    run (fuel + 1) l (s :: r) =
      match l.token s r with
      | .ok (l, r) => run fuel l r
      | .error f => l.tokens.reverse ++ [.broken f] := by
  simp only [isSkipped, Bool.or_eq_false_iff, beq_eq_false_iff_ne] at hs
  obtain ⟨⟨hspace, hhash⟩, hbreak⟩ := hs
  have hskip : skipToToken false (s :: r) = (false, s :: r) := by
    simp [skipToToken, hbreak, hhash, hspace]
  rw [run, hskip]
  rfl

theorem run_space (l : Lexer) (p : Cursor) (cs : List Char) (fuel : Nat) :
    run fuel l (p.spots (' ' :: cs)) = run fuel l ((p.next ' ').spots cs) := by
  have hskip : skipToToken false (p.spots (' ' :: cs)) =
      skipToToken false ((p.next ' ').spots cs) := by
    rw [Cursor.spots_cons (by decide)]
    rfl
  cases fuel with
  | zero => rfl
  | succ fuel => rw [run, run, hskip]

/-- A line break is skipped, and a key may begin behind it. -/
theorem run_break (hl : l.inFlow = false) (p : Cursor) (cs : List Char) (fuel : Nat) :
    run fuel l (p.spots ('\n' :: cs)) = run fuel (l.allowKey true) ((p.next '\n').spots cs) := by
  have hskip : skipToToken false (p.spots ('\n' :: cs)) =
      (true, (skipToToken false ((p.next '\n').spots cs)).2) := by
    rw [Cursor.spots_cons (by decide)]
    rfl
  cases fuel with
  | zero => rfl
  | succ fuel =>
    have hagain (broken : Bool) :
        (if broken && !(l.allowKey true).inFlow then (l.allowKey true).allowKey true
          else l.allowKey true) = l.allowKey true := by
      split <;> rfl
    rw [run, run, hskip]
    dsimp only
    rw [hagain, hl, Bool.not_false, Bool.and_true, if_pos rfl]

theorem run_blanks (l : Lexer) (p : Cursor) (n : Nat) (cs : List Char) (fuel : Nat) :
    run fuel l (p.spots (blanks n ++ cs)) = run fuel l ((p.after (blanks n)).spots cs) := by
  induction n generalizing p with
  | zero => rfl
  | succ n ih =>
    rw [blanks, List.replicate_succ, List.cons_append, run_space]
    exact ih _

theorem run_newLine (hl : l.inFlow = false) (p : Cursor) (n : Nat) (cs : List Char) (fuel : Nat) :
    run fuel l (p.spots (newLine n ++ cs)) =
      run fuel (l.allowKey true) ((p.after (newLine n)).spots cs) := by
  rw [newLine, List.cons_append, run_break hl, run_blanks]
  rfl

/-! ## Reading independently of what follows -/

/-- How reading goes on behind a text: it has ended with its tokens, or a state is left. -/
def continued (o : Except (List Token) Lexer) (fuel : Nat) (r : Rest) : List Token :=
  match o with
  | .ok l => run fuel l r
  | .error tokens => tokens

/-- A text is read in at most as many turns as it has characters, in a way that does not depend on what
    follows, and the state behind it satisfies `Q`, unless reading ends there. What follows is one of the
    texts `Y`. -/
def Reads (l : Lexer) (p : Cursor) (x : List Char) (Y : List Char → Prop) (Q : Lexer → Prop) : Prop :=
  ∃ n ≤ x.length, ∃ o, (∀ l', o = .ok l' → Q l') ∧ ∀ y, Y y → ∀ fuel,
    run (fuel + n) l (p.spots (x ++ y)) = continued o fuel ((p.after x).spots y)

namespace Reads

variable {x z : List Char} {Y Y' : List Char → Prop} {Q Q' : Lexer → Prop}

theorem mono (h : Reads l p x Y Q) (hY : ∀ y, Y' y → Y y) (hQ : ∀ l', Q l' → Q' l') :
    Reads l p x Y' Q' := by
  obtain ⟨n, hn, o, ho, hrun⟩ := h
  exact ⟨n, hn, o, fun l' hl' => hQ l' (ho l' hl'), fun y hy => hrun y (hY y hy)⟩

theorem nil (h : Q l) : Reads l p [] Y Q :=
  ⟨0, Nat.le_refl _, .ok l, fun l' hl' => by cases hl'; exact h, fun y _ fuel => rfl⟩

/-- Two texts in a row are read one after the other. -/
theorem append (h : Reads l p x Y Q) (h' : ∀ l', Q l' → Reads l' (p.after x) z Y' Q')
    (hY : ∀ y, Y' y → Y (z ++ y)) : Reads l p (x ++ z) Y' Q' := by
  obtain ⟨n, hn, o, ho, hrun⟩ := h
  cases o with
  | error tokens =>
    refine ⟨n, by simp; omega, .error tokens, nofun, fun y hy fuel => ?_⟩
    rw [List.append_assoc, hrun _ (hY y hy)]
    rfl
  | ok l' =>
    obtain ⟨n', hn', o', ho', hrun'⟩ := h' l' (ho l' rfl)
    refine ⟨n + n', by simp; omega, o', ho', fun y hy fuel => ?_⟩
    rw [List.append_assoc, Nat.add_comm n, ← Nat.add_assoc, hrun _ (hY y hy), continued,
      hrun' y hy, Cursor.after_append]

theorem behind_blank (h : Reads l (p.next ' ') x Y Q) : Reads l p (' ' :: x) Y Q := by
  obtain ⟨n, hn, o, ho, hrun⟩ := h
  refine ⟨n, hn.trans (by simp), o, ho, fun y hy fuel => ?_⟩
  rw [List.cons_append, run_space, hrun y hy]
  rfl

theorem behind_newLine (hl : l.inFlow = false) {n : Nat}
    (h : Reads (l.allowKey true) (p.after (newLine n)) x Y Q) : Reads l p (newLine n ++ x) Y Q := by
  obtain ⟨m, hm, o, ho, hrun⟩ := h
  refine ⟨m, hm.trans (by simp), o, ho, fun y hy fuel => ?_⟩
  rw [List.append_assoc, run_newLine hl, hrun y hy, Cursor.after_append]

/-- A single token is read. What is left is given by `g`, and reading goes on from there as it does from
    behind the text. -/
theorem of_step {c : Char} (hc : isSkipped c = false) {e : Except Failure Lexer}
    (g : List Char → Lexer → Lexer × Rest) (he : ∀ l', e = .ok l' → Q l')
    (htoken : ∀ y, Y y → l.token (p.spot c) ((p.next c).spots (x ++ y)) = e.map (g y))
    (hrun : ∀ y, Y y → ∀ l', e = .ok l' → ∀ fuel,
      run fuel (g y l').1 (g y l').2 = run fuel l' ((p.after (c :: x)).spots y)) :
    Reads l p (c :: x) Y Q := by
  have hreturn : c ≠ '\r' := by
    rintro rfl
    exact absurd hc (by decide)
  cases e with
  | error f =>
    refine ⟨1, by simp, .error (l.tokens.reverse ++ [.broken f]), nofun, fun y hy fuel => ?_⟩
    rw [List.cons_append, Cursor.spots_cons hreturn, run_token hc, htoken y hy]
    rfl
  | ok l' =>
    refine ⟨1, by simp, .ok l', fun _ h => by cases h; exact he l' rfl, fun y hy fuel => ?_⟩
    rw [List.cons_append, Cursor.spots_cons hreturn, run_token hc, htoken y hy]
    exact hrun y hy l' rfl fuel

theorem of_token {c : Char} (hc : isSkipped c = false)
    (h : ∃ e : Except Failure Lexer, (∀ l', e = .ok l' → Q l') ∧ ∀ y, Y y →
      l.token (p.spot c) ((p.next c).spots (x ++ y)) =
        e.map fun l' => (l', (p.after (c :: x)).spots y)) : Reads l p (c :: x) Y Q := by
  obtain ⟨e, he, htoken⟩ := h
  exact .of_step hc (fun y l' => (l', (p.after (c :: x)).spots y)) he htoken fun _ _ _ _ _ => rfl

end Reads

/-! ## Outside of brackets -/

/-- No bracket is open at a place. The stack of columns has its bottom, and no key has begun further
    down. -/
structure Level (l : Lexer) (p : Cursor) : Prop where
  flow : l.keys.length = 1
  base : l.indent = -1 ∨ -1 ∈ l.indents
  line (k : KeyStart) : some k ∈ l.keys → k.spot.line ≤ p.line

namespace Level

theorem inFlow (h : Level l p) : l.inFlow = false := by
  rw [Lexer.inFlow, h.flow]
  rfl

theorem allowKey (h : Level l p) (allowed : Bool) : Level (l.allowKey allowed) p :=
  ⟨h.flow, h.base, h.line⟩

theorem emit (h : Level l p) (t : Token) : Level (l.emit t) p := ⟨h.flow, h.base, h.line⟩

theorem insert (h : Level l p) (place : Nat) (t : Token) : Level (l.insert place t) p :=
  ⟨h.flow, h.base, h.line⟩

/-- Further down the same holds. -/
theorem of_le (h : Level l p) {q : Cursor} (hq : p.line ≤ q.line) : Level l q :=
  ⟨h.flow, h.base, fun k hk => Nat.le_trans (h.line k hk) hq⟩

theorem push (h : Level l p) (column : Nat) : Level (l.push column) p := by
  refine ⟨h.flow, .inr ?_, h.line⟩
  rcases h.base with h | h
  · rw [Lexer.push, h]
    exact List.mem_cons_self
  · exact List.mem_cons_of_mem _ h

theorem tail_keys (h : Level l p) : l.keys.tail = [] :=
  List.eq_nil_of_length_eq_zero (by rw [List.length_tail, h.flow])

/-- A single key is known outside of brackets, and another one takes its place. -/
theorem withKey (h : Level l p) (k : Option KeyStart) (hk : ∀ k' ∈ k, k'.spot.line ≤ p.line) :
    Level { l with keys := k :: l.keys.drop 1 } p := by
  rw [List.drop_one, h.tail_keys]
  exact ⟨rfl, h.base, fun k' hk' => hk k' (List.mem_singleton.1 hk').symm⟩

end Level

/-- The collections to the right of a column are closed, and no others. -/
theorem closeTo_spec (column : Int) (hcolumn : -1 ≤ column) (outers : List Int) (l : Lexer)
    (hbase : l.indent = -1 ∨ -1 ∈ outers) :
    let l' := closeTo column l outers
    l'.keys = l.keys ∧ l'.keyAllowed = l.keyAllowed ∧ (l'.indent = -1 ∨ -1 ∈ l'.indents) ∧
      l'.indent ≤ column ∧ (l.indent ≤ column → l'.indent = l.indent) := by
  induction outers generalizing l with
  | nil =>
    -- The bottom of the stack is left of every column, so the search ends there at the latest.
    have hindent : l.indent = -1 := by simpa using hbase
    exact ⟨rfl, rfl, .inl hindent, by rw [← hindent] at hcolumn; exact hcolumn, fun _ => rfl⟩
  | cons outer outers ih =>
    by_cases hlt : column < l.indent
    · have hbase' : outer = -1 ∨ -1 ∈ outers := by
        rcases hbase with h | h
        · omega
        · exact (List.mem_cons.1 h).imp Eq.symm id
      have hrec := ih { l with indent := outer, tokens := .blockEnd :: l.tokens } hbase'
      simp only [closeTo, if_pos hlt]
      exact ⟨hrec.1, hrec.2.1, hrec.2.2.1, hrec.2.2.2.1, fun h => absurd hlt (Int.not_lt.2 h)⟩
    · simp only [closeTo, if_neg hlt]
      exact ⟨trivial, trivial, hbase, Int.not_lt.1 hlt, fun _ => trivial⟩

theorem mem_of_dropStale {s : Spot} {keys keys' : List (Option KeyStart)}
    (h : dropStale s keys = .ok keys') : keys'.length = keys.length ∧
      ∀ k, some k ∈ keys' → some k ∈ keys ∧ k.spot.line = s.line := by
  induction keys generalizing keys' with
  | nil =>
    cases h
    exact ⟨rfl, fun k hk => absurd hk List.not_mem_nil⟩
  | cons k keys ih =>
    have hnone (h : (dropStale s keys).map (none :: ·) = .ok keys') :
        keys'.length = (k :: keys).length ∧
          ∀ k', some k' ∈ keys' → some k' ∈ k :: keys ∧ k'.spot.line = s.line := by
      obtain ⟨keys₁, hkeys, rfl⟩ := exists_of_map_eq_ok h
      obtain ⟨hlength, hmem⟩ := ih hkeys
      refine ⟨congrArg (· + 1) hlength, fun k' hk => ?_⟩
      obtain ⟨hk, hline⟩ := hmem k' ((List.mem_cons.1 hk).resolve_left nofun)
      exact ⟨List.mem_cons_of_mem _ hk, hline⟩
    cases k with
    | none => exact hnone h
    | some k =>
      rw [dropStale] at h
      split at h
      · next hreaches =>
        obtain ⟨keys₁, hkeys, rfl⟩ := exists_of_map_eq_ok h
        obtain ⟨hlength, hmem⟩ := ih hkeys
        refine ⟨congrArg (· + 1) hlength, fun k' hk => ?_⟩
        rcases List.mem_cons.1 hk with hk | hk
        · cases hk
          simp only [KeyStart.reaches, Bool.and_eq_true, beq_iff_eq] at hreaches
          exact ⟨List.mem_cons_self, hreaches.1⟩
        · exact ⟨List.mem_cons_of_mem _ (hmem k' hk).1, (hmem k' hk).2⟩
      · split at h
        · cases h
        · exact hnone h

/-- A state in front of a token: collections further to the right are closed, and of the keys those are
    left that can still have their colon. -/
structure Ready (l : Lexer) (p : Cursor) (l' : Lexer) : Prop where
  level : Level l' p
  allowed : l'.keyAllowed = l.keyAllowed
  indent_le : l'.indent ≤ p.column
  indent_eq : l.indent ≤ p.column → l'.indent = l.indent
  key (k : KeyStart) : some k ∈ l'.keys → some k ∈ l.keys ∧ k.spot.line = p.line

theorem Ready.le_indent {l' : Lexer} (h : Ready l p l') : l'.indent ≤ l.indent := by
  have hle := h.indent_le
  by_cases hl : l.indent ≤ p.column
  · exact Int.le_of_eq (h.indent_eq hl)
  · omega

/-- In front of a token the state is made ready for it, unless a key has lost its colon. -/
theorem exists_ready (h : Level l p) (c : Char) :
    (∃ f, ∀ r, l.token (p.spot c) r = .error f) ∨
      ∃ l', (∀ r, l.token (p.spot c) r = l'.step (p.spot c) r) ∧ Ready l p l' := by
  cases hkeys : dropStale (p.spot c) l.keys with
  | error f => exact .inl ⟨f, fun r => by rw [token, hkeys]; rfl⟩
  | ok keys =>
    obtain ⟨hlength, hmem⟩ := mem_of_dropStale hkeys
    have hflow : ({ l with keys } : Lexer).inFlow = false := by
      rw [inFlow, hlength, h.flow]
      rfl
    obtain ⟨hk, hallowed, hbase, hle, hsame⟩ :=
      closeTo_spec p.column (by omega) l.indents { l with keys } h.base
    refine .inr ⟨_, fun r => by rw [token, hkeys]; rfl, ?_⟩
    rw [close, hflow, if_neg Bool.false_ne_true]
    refine ⟨⟨?_, hbase, fun k hk' => ?_⟩, hallowed, hle, hsame, fun k hk' => ?_⟩
    · rw [Cursor.spot, hk, hlength, h.flow]
    · rw [Cursor.spot, hk] at hk'
      exact Nat.le_of_eq (hmem k hk').2
    · rw [Cursor.spot, hk] at hk'
      exact hmem k hk'

theorem openBlock_spec (h : Level l p) {column : Nat} (hle : l.indent ≤ column) (t : Token) :
    Level (l.openBlock column t) p ∧ (l.openBlock column t).indent = column ∧
      (l.openBlock column t).keyAllowed = l.keyAllowed ∧ (l.openBlock column t).keys = l.keys := by
  rw [openBlock]
  split
  · exact ⟨(h.push column).emit t, rfl, rfl, rfl⟩
  · next hinner =>
    simp only [isInner, decide_eq_true_eq] at hinner
    exact ⟨h, by omega, rfl, rfl⟩

theorem dropKey_spec (h : Level l p) {l' : Lexer} (hl' : l.dropKey = .ok l') :
    Level l' p ∧ l'.indent = l.indent ∧ l'.keyAllowed = l.keyAllowed := by
  rw [dropKey] at hl'
  split at hl'
  · next k keys hkeys =>
    split at hl'
    · cases hl'
    · cases hl'
      have hlevel := h.withKey none fun k hk => by cases hk
      rw [hkeys] at hlevel
      exact ⟨hlevel, rfl, rfl⟩
  · cases hl'
    exact ⟨h, rfl, rfl⟩

/-! ## Marks -/

/-- Behind a mark at a column there is a collection at that column, and a key may begin. -/
def IsMarked (column : Nat) (q : Cursor) (l : Lexer) : Prop :=
  Level l q ∧ l.indent = column ∧ l.keyAllowed = true

theorem isMarked_of_dropKey (h : Level l p) {column : Nat} (hle : l.indent ≤ column) {b t : Token}
    {l' : Lexer} (hl' : (l.openBlock column b).dropKey = .ok l') {q : Cursor} (hq : p.line ≤ q.line) :
    IsMarked column q ((l'.allowKey true).emit t) := by
  obtain ⟨hlevel, hindent, -, -⟩ := openBlock_spec h hle b
  obtain ⟨hlevel', hindent', -⟩ := dropKey_spec hlevel hl'
  exact ⟨((hlevel'.allowKey true).emit t).of_le hq, hindent'.trans hindent, rfl⟩

/-- A character that stands alone is no border. -/
theorem isBorder_eq_false {c : Char} {s : Spot} {r : Rest} (h : peek r ≠ c) :
    isBorder c (s :: r) = false := by
  have hsecond : (peekAt 1 (s :: r) == c) = false := beq_false_of_ne h
  simp [isBorder, hsecond]

theorem isBorder_of_isGap {c : Char} (hc : isGap c = false) {r : Rest} (hr : isGap (peek r)) (s : Spot) :
    isBorder c (s :: r) = false :=
  isBorder_eq_false fun h => by rw [h, hc] at hr; cases hr

theorem step_dash {r : Rest} (hr : isGap (peek r)) (l : Lexer) (p : Cursor) :
    l.step (p.spot '-') r = (l.item (p.spot '-')).map (·, r) := by
  simp [step, isBorder_of_isGap (c := '-') (by decide) hr, isBorder_of_isGap (c := '.') (by decide) hr,
    hr]

theorem step_question {r : Rest} (hr : isGap (peek r)) (l : Lexer) (p : Cursor) :
    l.step (p.spot '?') r = (l.explicitKey (p.spot '?')).map (·, r) := by
  simp [step, isBorder_of_isGap (c := '-') (by decide) hr, isBorder_of_isGap (c := '.') (by decide) hr,
    hr]

theorem step_colon {r : Rest} (hr : isGap (peek r)) (l : Lexer) (p : Cursor) :
    l.step (p.spot ':') r = (l.value (p.spot ':')).map (·, r) := by
  simp [step, isBorder_of_isGap (c := '-') (by decide) hr, isBorder_of_isGap (c := '.') (by decide) hr,
    hr]

/-- A gap follows. -/
def GapFollows (y : List Char) : Prop := ∃ c r, y = c :: r ∧ isGap c

theorem GapFollows.peek {y : List Char} (h : GapFollows y) (p : Cursor) : isGap (peek (p.spots y)) := by
  obtain ⟨c, r, rfl, hc⟩ := h
  exact hc

/-- A mark with a gap behind it is read as `f` does, which leaves a state that satisfies `Q`. -/
theorem reads_mark (h : Level l p) {c : Char} (hc : isSkipped c = false) {Q : Lexer → Prop}
    {f : Lexer → Except Failure Lexer}
    (hstep : ∀ (l : Lexer) r, isGap (peek r) → l.step (p.spot c) r = (f l).map (·, r))
    (hf : ∀ l', Ready l p l' → ∀ l'', f l' = .ok l'' → Q l'') : Reads l p [c] GapFollows Q := by
  refine .of_token hc ?_
  rcases exists_ready h c with ⟨g, hg⟩ | ⟨l', htoken, hready⟩
  · exact ⟨.error g, nofun, fun y _ => hg _⟩
  · refine ⟨f l', hf l' hready, fun y hy => ?_⟩
    rw [List.nil_append, htoken, hstep _ _ (hy.peek _)]
    rfl

theorem line_next {c : Char} (hc : isBreak c = false) (p : Cursor) : p.line ≤ (p.next c).line :=
  Nat.le_of_eq (Cursor.next_of_not_isBreak hc p).1.symm

theorem reads_dash (h : Level l p) : Reads l p ['-'] GapFollows (IsMarked p.column (p.next '-')) := by
  refine reads_mark h (by decide) (fun l r hr => step_dash hr l p) fun l' hready l'' hl'' => ?_
  have hitem : l'.item (p.spot '-') = if l'.keyAllowed then
      (l'.openBlock p.column .blockSequence).dropKey.map fun l => (l.allowKey true).emit .item
      else reject (.misplaced '-') := by
    rw [item, hready.level.inFlow]
    cases l'.keyAllowed <;> rfl
  rw [hitem] at hl''
  split at hl''
  · obtain ⟨l₁, hdrop, rfl⟩ := exists_of_map_eq_ok hl''
    exact isMarked_of_dropKey hready.level hready.indent_le hdrop (line_next rfl p)
  · cases hl''

theorem reads_question (h : Level l p) :
    Reads l p ['?'] GapFollows (IsMarked p.column (p.next '?')) := by
  refine reads_mark h (by decide) (fun l r hr => step_question hr l p) fun l' hready l'' hl'' => ?_
  have hkey : l'.explicitKey (p.spot '?') = if l'.keyAllowed then
      (l'.openBlock p.column .blockMapping).dropKey.map fun l => (l.allowKey (!l.inFlow)).emit .key
      else reject (.misplaced '?') := by
    rw [explicitKey, hready.level.inFlow]
    cases l'.keyAllowed <;> rfl
  rw [hkey] at hl''
  split at hl''
  · obtain ⟨l₁, hdrop, rfl⟩ := exists_of_map_eq_ok hl''
    have hlevel := (openBlock_spec hready.level hready.indent_le .blockMapping).1
    rw [(dropKey_spec hlevel hdrop).1.inFlow]
    exact isMarked_of_dropKey hready.level hready.indent_le hdrop (line_next rfl p)
  · cases hl''

/-- A colon at the beginning of a line, behind a key that has lines of its own. -/
theorem reads_colon_of_line (h : Level l p) (hline : ∀ k, some k ∈ l.keys → k.spot.line < p.line) :
    Reads l p [':'] GapFollows (IsMarked p.column (p.next ':')) := by
  refine reads_mark h (by decide) (fun l r hr => step_colon hr l p) fun l' hready l'' hl'' => ?_
  rw [value] at hl''
  split at hl''
  · next k keys hk =>
    -- A key that can still have its colon stands on the colon's line.
    obtain ⟨hmem, hsame⟩ := hready.key k (by rw [hk]; exact List.mem_cons_self)
    exact absurd hsame (Nat.ne_of_lt (hline k hmem))
  · obtain ⟨hlevel, hindent, -, -⟩ := openBlock_spec hready.level hready.indent_le .blockMapping
    rw [hready.level.inFlow] at hl''
    cases hallowed : l'.keyAllowed with
    | false =>
      rw [hallowed] at hl''
      cases hl''
    | true =>
      rw [hallowed] at hl''
      cases hl''
      refine ⟨((hlevel.allowKey _).emit _).of_le (line_next rfl p), hindent, ?_⟩
      change (!(l'.openBlock p.column .blockMapping).inFlow) = true
      rw [hlevel.inFlow]
      rfl

/-- A key has begun at a column, and it has been read. -/
structure KeyRead (column : Nat) (q : Cursor) (l : Lexer) : Prop where
  level : Level l q
  indent : l.indent ≤ column
  allowed : l.keyAllowed = false
  column (k : KeyStart) : some k ∈ l.keys → k.spot.column = column

theorem valueOfKey_spec (h : Level l p) {k : KeyStart} (hle : l.indent ≤ k.spot.column) :
    Level (l.valueOfKey k) p ∧ (l.valueOfKey k).indent = k.spot.column := by
  have hlevel := (h.withKey none nofun).insert k.place .key
  rw [valueOfKey, hlevel.inFlow, Bool.not_false, Bool.true_and]
  split
  · exact ⟨((hlevel.push k.spot.column).insert k.place .blockMapping).allowKey false |>.emit .value, rfl⟩
  · next hinner =>
    simp only [isInner, decide_eq_true_eq] at hinner
    have hindent : ¬l.indent < k.spot.column := hinner
    exact ⟨(hlevel.allowKey false).emit .value, show l.indent = _ by omega⟩

/-- A colon behind a key. -/
theorem reads_colon {column : Nat} (h : KeyRead column p l) :
    Reads l p [':'] GapFollows fun l' => Level l' (p.next ':') ∧ l'.indent = column := by
  refine reads_mark h.level (by decide) (fun l r hr => step_colon hr l p) fun l' hready l'' hl'' => ?_
  rw [value] at hl''
  split at hl''
  · next k keys hk =>
    cases hl''
    obtain ⟨hmem, -⟩ := hready.key k (by rw [hk]; exact List.mem_cons_self)
    have hcolumn := h.column k hmem
    have hle : l'.indent ≤ k.spot.column := by
      rw [hcolumn]
      exact Int.le_trans hready.le_indent h.indent
    obtain ⟨hlevel, hindent⟩ := valueOfKey_spec hready.level hle
    exact ⟨hlevel.of_le (line_next rfl p), by rw [hindent, hcolumn]⟩
  · rw [hready.level.inFlow, hready.allowed, h.allowed] at hl''
    cases hl''

/-! ## Scalars and empty collections -/

theorem saveKey_spec (h : Level l p) {c : Char} {l' : Lexer} (hl' : l.saveKey (p.spot c) = .ok l') :
    Level l' p ∧ l'.indent = l.indent ∧
      (l.keyAllowed = true → ∀ k, some k ∈ l'.keys → k.spot.column = p.column) := by
  rw [saveKey] at hl'
  split at hl'
  · obtain ⟨l₁, hdrop, hl'⟩ := exists_of_bind_eq_ok hl'
    cases hl'
    obtain ⟨hlevel, hindent, -⟩ := dropKey_spec h hdrop
    refine ⟨hlevel.withKey _ ?_, hindent, fun _ k hk => ?_⟩
    · rintro k ⟨⟩
      exact Nat.le_refl _
    · rw [List.drop_one, hlevel.tail_keys, List.mem_singleton] at hk
      cases hk
      rfl
  · next hallowed =>
    cases hl'
    exact ⟨h, rfl, fun h => absurd h hallowed⟩

/-- A scalar or an empty collection has been read, from `p` on. If a key was allowed there, it may have
    been one. -/
structure NodeRead (l : Lexer) (p q : Cursor) (l' : Lexer) : Prop where
  level : Level l' q
  indent : l'.indent ≤ p.column
  allowed : l'.keyAllowed = false
  column : l.keyAllowed = true → ∀ k, some k ∈ l'.keys → k.spot.column = p.column

theorem nodeRead_of_saveKey {l₁ l₂ : Lexer} (h : Ready l p l₁) {c : Char}
    (hsave : l₁.saveKey (p.spot c) = .ok l₂) (t : Token) {q : Cursor} (hq : p.line ≤ q.line) :
    NodeRead l p q ((l₂.allowKey false).emit t) := by
  obtain ⟨hlevel, hindent, hcolumn⟩ := saveKey_spec h.level hsave
  exact ⟨((hlevel.allowKey false).emit t).of_le hq, hindent.trans_le h.indent_le, rfl,
    fun hallowed => hcolumn (h.allowed.trans hallowed)⟩

theorem step_quote (double : Bool) (l : Lexer) (p : Cursor) (r : Rest) :
    l.step (p.spot (quoteOf double)) r = l.quoted (p.spot (quoteOf double)) r := by
  cases double <;> simp [step, isBorder, peek, quoteOf]

/-- A quoted scalar is read up to its closing quote. -/
theorem reads_quoted (h : Level l p) {double : Bool} {b : List Char} (hb : QuotedBody double b) :
    let x := quoteOf double :: (b ++ [quoteOf double])
    Reads l p x (·.head? ≠ some (quoteOf double)) (NodeRead l p (p.after x)) := by
  refine .of_token (by cases double <;> rfl) ?_
  rcases exists_ready h (quoteOf double) with ⟨f, hf⟩ | ⟨l₁, htoken, hready⟩
  · exact ⟨.error f, nofun, fun y _ => hf _⟩
  · obtain ⟨o, ho⟩ := exists_quotedAs hb (p.next (quoteOf double))
    have hdouble : (quoteOf double == '"') = double := by cases double <;> rfl
    refine ⟨(l₁.saveKey (p.spot (quoteOf double))).bind fun l₂ => o.map fun text =>
      (l₂.allowKey false).emit (.scalar (.ofCodes text) false), fun l' hl' => ?_, fun y hy => ?_⟩
    · obtain ⟨l₂, hsave, hl'⟩ := exists_of_bind_eq_ok hl'
      obtain ⟨text, -, rfl⟩ := exists_of_map_eq_ok hl'
      exact nodeRead_of_saveKey hready hsave _ (Cursor.line_le_after _ _)
    · rw [htoken, step_quote, quoted, List.append_assoc, List.singleton_append, Cursor.spot_char,
        hdouble, ho y hy _ (by rw [Cursor.length_spots, List.length_append]; omega)]
      cases l₁.saveKey (p.spot (quoteOf double)) with
      | error f => rfl
      | ok l₂ => cases o <;> rfl

/-- A closing bracket right behind the opening one. -/
theorem token_close {keys : List (Option KeyStart)} (hkeys : keys.length = 1)
    (hl : l.keys = none :: keys) {c : Char} {t : Token}
    (hstep : ∀ l r, step l (p.spot c) r = (l.closeFlow (p.spot c) t).map (·, r)) (r : Rest) :
    l.token (p.spot c) r =
      (dropStale (p.spot c) keys).map fun keys => (({ l with keys }.allowKey false).emit t, r) := by
  rw [token, hl, dropStale]
  cases hstale : dropStale (p.spot c) keys with
  | error f => rfl
  | ok keys' =>
    have hflow : ({ l with keys := none :: keys' } : Lexer).inFlow = true := by
      rw [inFlow, List.length_cons, (mem_of_dropStale hstale).1, hkeys]
      rfl
    change step (({ l with keys := none :: keys' } : Lexer).close _) _ _ = _
    rw [close, hflow, if_pos rfl, hstep, closeFlow, hflow]
    rfl

/-- An empty collection is read up to its closing bracket. -/
theorem reads_brackets (h : Level l p) {c c' : Char} (hc : isSkipped c = false)
    (hc' : isSkipped c' = false) {t u : Token}
    (hopen : ∀ (l : Lexer) (p : Cursor) r,
      l.step (p.spot c) r = (l.openFlow (p.spot c) t).map (·, r))
    (hclose : ∀ (l : Lexer) (p : Cursor) r,
      l.step (p.spot c') r = (l.closeFlow (p.spot c') u).map (·, r)) :
    Reads l p [c, c'] (fun _ => True) (NodeRead l p (p.after [c, c'])) := by
  -- Between the brackets there is a second level of keys, so `Level` fails there; what is kept in its
  -- place is the whole state that the opening bracket leaves.
  have hfirst : Reads l p [c] (fun _ => True) fun l' =>
      ∃ l₁ l₂, Ready l p l₁ ∧ l₁.saveKey (p.spot c) = .ok l₂ ∧
        l' = { (l₂.allowKey true).emit t with keys := none :: l₂.keys } := by
    refine .of_token hc ?_
    rcases exists_ready h c with ⟨f, hf⟩ | ⟨l₁, htoken, hready⟩
    · exact ⟨.error f, nofun, fun y _ => hf _⟩
    · refine ⟨l₁.openFlow (p.spot c) t, fun l' hl' => ?_, fun y _ => ?_⟩
      · obtain ⟨l₂, hsave, hl'⟩ := exists_of_bind_eq_ok hl'
        cases hl'
        exact ⟨l₁, l₂, hready, hsave, rfl⟩
      · rw [htoken, hopen]
        rfl
  refine hfirst.append (z := [c']) ?_ fun _ _ => trivial
  rintro l' ⟨l₁, l₂, hready, hsave, rfl⟩
  obtain ⟨hlevel, hindent, hcolumn⟩ := saveKey_spec hready.level hsave
  refine .of_token hc' ⟨(dropStale ((p.after [c]).spot c') l₂.keys).map fun keys =>
    (({ (l₂.allowKey true).emit t with keys } : Lexer).allowKey false).emit u, fun l' hl' => ?_,
    fun y _ => ?_⟩
  · obtain ⟨keys, hkeys, rfl⟩ := exists_of_map_eq_ok hl'
    obtain ⟨hlength, hmem⟩ := mem_of_dropStale hkeys
    have hline := Cursor.line_le_after p [c, c']
    refine ⟨⟨hlength.trans hlevel.flow, hlevel.base, fun k hk => ?_⟩, ?_, rfl, fun hallowed k hk => ?_⟩
    · exact (hlevel.line k (hmem k hk).1).trans hline
    · exact hindent.trans_le hready.indent_le
    · exact hcolumn (hready.allowed.trans hallowed) k (hmem k hk).1
  · rw [List.nil_append, token_close hlevel.flow rfl fun l r => hclose l _ r]
    cases dropStale ((p.after [c]).spot c') l₂.keys <;> rfl

theorem reads_emptySequence (h : Level l p) :
    Reads l p ['[', ']'] (fun _ => True) (NodeRead l p (p.after ['[', ']'])) :=
  reads_brackets h (t := .flowSequence) (u := .flowSequenceEnd) (by decide) (by decide)
    (fun l p r => by simp [step, isBorder, peek]) fun l p r => by simp [step, isBorder, peek]

theorem reads_emptyMapping (h : Level l p) :
    Reads l p ['\x7b', '\x7d'] (fun _ => True) (NodeRead l p (p.after ['\x7b', '\x7d'])) :=
  reads_brackets h (t := .flowMapping) (u := .flowMappingEnd) (by decide) (by decide)
    (fun l p r => by simp [step, isBorder, peek]) fun l p r => by simp [step, isBorder, peek]

/-! ## Plain scalars -/

theorem isBorder_of_plainStart {c m : Char} {r y : List Char} (h : PlainStart c r) (hm : m ∈ ['-', '.'])
    (hy : y.head? ≠ some m) (p q : Cursor) : isBorder m (p.spot c :: q.spots (r ++ y)) = false := by
  have hne : m ≠ endMark := by
    rintro rfl
    exact absurd hm (by decide)
  have hhead (z : List Char) (hz : z.headD endMark = m) : z.head? = some m := by
    cases z with
    | nil => exact absurd hz.symm hne
    | cons d z => exact congrArg some hz
  rw [← Bool.not_eq_true]
  intro hborder
  have hnext (n : Nat) :
      peekAt (n + 1) (p.spot c :: q.spots (r ++ y)) = ((r ++ y).drop n).headD endMark :=
    Cursor.peekAt_spots q n _
  simp only [isBorder, Bool.and_eq_true, beq_iff_eq, hnext, List.drop_zero] at hborder
  obtain ⟨⟨⟨hc, hfirst⟩, hsecond⟩, -⟩ := hborder
  replace hc : c = m := hc
  replace hfirst := hhead _ hfirst
  replace hsecond := hhead _ hsecond
  subst hc
  rcases r with _ | ⟨d, _ | ⟨e, r⟩⟩
  · exact hy hfirst
  · exact hy hsecond
  · cases hfirst
    cases hsecond
    exact h.border c hm rfl

/-- The beginning of a plain scalar is not taken for anything else. -/
theorem step_plain (hl : l.inFlow = false) {c : Char} {r y : List Char} (h : PlainStart c r)
    (hy : ∀ m ∈ ['-', '.'], y.head? ≠ some m) (p q : Cursor) :
    l.step (p.spot c) (q.spots (r ++ y)) = l.plain (p.spot c) (p.spot c :: q.spots (r ++ y)) := by
  have hdash := isBorder_of_plainStart h (m := '-') (by decide) (hy _ (by decide)) p q
  have hdot := isBorder_of_plainStart h (m := '.') (by decide) (hy _ (by decide)) p q
  have hindicator := h.indicator
  simp only [indicators, List.mem_cons, List.not_mem_nil, or_false, not_or] at hindicator
  -- A dash, a question mark or a colon begins a plain scalar only in front of what is no gap.
  have hnext : c = '-' ∨ c = '?' ∨ c = ':' → isGap (peek (q.spots (r ++ y))) = false := by
    intro hc
    obtain ⟨d, r', rfl, hd⟩ := h.mark (by rcases hc with rfl | rfl | rfl <;> decide)
    rw [Cursor.peek_spots, List.cons_append, List.headD_cons, hd]
  have hbegins : beginsPlain l.inFlow c (peek (q.spots (r ++ y))) = true := by
    by_cases hc : c = '-' ∨ c = '?' ∨ c = ':'
    · rcases hc with rfl | rfl | rfl <;> simp [beginsPlain, hnext, hl]
    · rw [not_or, not_or] at hc
      simp_all [beginsPlain, h.gap]
  have halone (m : Char) (hm : m = '-' ∨ m = '?' ∨ m = ':') :
      ¬(c = m ∧ isGap (peek (q.spots (r ++ y)))) := by
    rintro ⟨rfl, hgap⟩
    rw [hnext hm] at hgap
    cases hgap
  rw [hl] at hbegins
  simp [step, hl, hdash, hdot, hindicator, halone, hbegins]

/-- What follows a plain scalar that ends at `q`: it is not taken for a part of the scalar, and passing
    over a line break early makes no difference. -/
structure Ends (least : Int) (q : Cursor) (y : List Char) : Prop where
  plain : EndsPlain least q y
  head : ∀ c ∈ y.head?, c ∉ ['-', '.', '"', '\'']
  resume (l : Lexer) (hflow : l.inFlow = false) (hallowed : l.keyAllowed = false) (fuel : Nat) :
    run fuel (l.allowKey (readPlainSpaces (q.spots y)).2.1) (readPlainSpaces (q.spots y)).2.2 =
      run fuel l (q.spots y)

/-- The token of a plain scalar is the same, whatever follows the scalar. -/
theorem exists_token_plain {l₁ : Lexer} (h : Ready l p l₁) {c : Char} {r : List Char}
    (hstart : PlainStart c r) {indent : Nat} (hspaced : Spaced (IsWordGap indent) (c :: r))
    (hpos : 0 < indent) (hindent : l₁.indent + 1 ≤ indent) :
    ∃ t, ∀ y, Ends (l₁.indent + 1) (p.after (c :: r)) y →
      l₁.step (p.spot c) ((p.next c).spots (r ++ y)) = (l₁.node (p.spot c) t).map fun l₂ =>
        (l₂.allowKey (readPlainSpaces ((p.after (c :: r)).spots y)).2.1,
          (readPlainSpaces ((p.after (c :: r)).spots y)).2.2) := by
  have hle := h.indent_le
  have hflow := h.level.inFlow
  obtain ⟨text, htext⟩ := exists_readPlain hspaced hindent hpos p (by omega)
  refine ⟨.scalar (.whole (String.ofList text)) true, fun y hy => ?_⟩
  have hhead : ∀ m ∈ ['-', '.'], y.head? ≠ some m := fun m hm hhead =>
    hy.head m hhead (List.mem_append_left ['"', '\''] hm)
  have hread := htext y hy.plain (((p.spot c :: (p.next c).spots (r ++ y)).length + 1))
    (by rw [List.length_cons, List.length_cons, Cursor.length_spots, List.length_append]; omega)
  rw [List.cons_append, Cursor.spots_cons (ne_carriageReturn_of_not_isGap hstart.gap)] at hread
  rw [step_plain hflow hstart hhead, plain, hflow, hread]
  dsimp only
  cases l₁.node (p.spot c) (.scalar (.whole (String.ofList text)) true) <;> rfl

/-- A plain scalar is read up to its end. -/
theorem reads_plain (h : Level l p) {cs : List Char} (hcs : Style.allowsPlain cs) (hne : cs ≠ [])
    {f : Frame} (hpos : 0 < f.indent) (column : Nat) {Y : List Char → Prop}
    (hY : ∀ l₁, Ready l p l₁ → l₁.indent + 1 ≤ f.indent ∧
      ∀ y, Y y → Ends (l₁.indent + 1) (p.after (Style.plain.write f column cs)) y) :
    Reads l p (Style.plain.write f column cs) Y
      (NodeRead l p (p.after (Style.plain.write f column cs))) := by
  have hspaced := spaced_write_plain hcs hne f column
  obtain ⟨c, r, hx, hstart⟩ := exists_plainStart hcs hne f column
  rw [hx] at hspaced hY ⊢
  have hskip : isSkipped c = false := by
    have hhash : c ≠ '#' := by
      rintro rfl
      exact absurd hstart.indicator (by decide)
    have hblank : c ≠ ' ' := ne_of_not_isGap hstart.gap (by decide)
    simp [isSkipped, hhash, hblank, isBreak_of_not_isGap hstart.gap]
  rcases exists_ready h c with ⟨g, hg⟩ | ⟨l₁, htoken, hready⟩
  · exact .of_token hskip ⟨.error g, nofun, fun y _ => hg _⟩
  · obtain ⟨hindent, hends⟩ := hY l₁ hready
    obtain ⟨t, ht⟩ := exists_token_plain hready hstart hspaced hpos hindent
    have hnode (l₃ : Lexer) (hl₃ : l₁.node (p.spot c) t = .ok l₃) :
        NodeRead l p (p.after (c :: r)) l₃ := by
      obtain ⟨l₂, hsave, hl₃⟩ := exists_of_bind_eq_ok hl₃
      cases hl₃
      exact nodeRead_of_saveKey hready hsave t (Cursor.line_le_after p (c :: r))
    exact .of_step hskip _ hnode (fun y hy => (htoken _).trans (ht y (hends y hy))) fun y hy l₃ hl₃ =>
      (hends y hy).resume l₃ (hnode l₃ hl₃).level.inFlow (hnode l₃ hl₃).allowed

end Lexer

end Stencil.Yaml
