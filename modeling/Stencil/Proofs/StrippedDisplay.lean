import Stencil.Proofs.JsonRoundTrip
import Stencil.Proofs.WrittenDocuments
import Stencil.Yaml.Tree

/-!
# Displays without blanks at their ends

A display is the document of a value without the blanks at its end. The line break is there to be taken
away, and reading does not miss it. More than that is taken away from a collection whose last leaf is a
text that is written without quotes and ends in a wide blank, which is no blank for YAML; then the
display may be read as another value.

* `Node.endsBlank`, `endsAs_body`: the last character of a document;
* `losesBlanks`: the values whose displays lack more than a line break;
* `read_display`, `display_loses_blank`: all other displays are read as the documents are.
-/

namespace Stencil.Yaml

/-! ## Last characters -/

/-- Whether the last character of a text, which is not empty, is a blank. -/
def EndsAs (x : List Char) (blank : Bool) : Prop := x.getLast?.map Text.isBlank = some blank

/-- What stands in front does not change how a text ends. -/
theorem EndsAs.append {x : List Char} {blank : Bool} (h : EndsAs x blank) (u : List Char) :
    EndsAs (u ++ x) blank := by
  obtain ⟨c, hc, hblank⟩ := Option.map_eq_some_iff.1 h
  rw [EndsAs, List.getLast?_append, hc]
  exact congrArg some hblank

theorem EndsAs.cons {x : List Char} {blank : Bool} (h : EndsAs x blank) (c : Char) :
    EndsAs (c :: x) blank :=
  h.append [c]

/-- Only from a text that ends in a blank something is stripped. -/
theorem trimEnd_eq_self_iff {x : List Char} {blank : Bool} (h : EndsAs x blank) :
    Text.trimEnd x = x ↔ blank = false := by
  obtain ⟨c, hc, rfl⟩ := Option.map_eq_some_iff.1 h
  obtain ⟨u, rfl⟩ := List.getLast?_eq_some_iff.1 hc
  rw [Text.trimEnd, List.reverse_append, List.reverse_singleton, List.singleton_append,
    List.dropWhile_cons]
  cases hblank : Text.isBlank c with
  | true =>
    refine ⟨fun heq => ?_, nofun⟩
    -- Without its last character the text is shorter.
    have hlength := congrArg List.length heq
    have hle := (List.dropWhile_suffix (p := Text.isBlank) (l := u.reverse)).length_le
    simp at hlength hle
    omega
  | false => simp

/-- A line break at the end is stripped with the blanks in front of it. -/
theorem trimEnd_append_newLine (x : List Char) : Text.trimEnd (x ++ ['\n']) = Text.trimEnd x := by
  rw [Text.trimEnd, List.reverse_append, List.reverse_singleton, List.singleton_append,
    List.dropWhile_cons_of_pos (by decide), Text.trimEnd]

/-! ## The last character of a node -/

namespace Frame

/-- The last character of a line stays where it is when the line is folded. -/
theorem exists_folded_concat {f : Frame} {cs : List Char} {c : Char}
    (hbreak : ∀ d ∈ cs ++ [c], isShownBreak d = false) (hc : c ≠ ' ') (last : Char) (column : Nat) :
    ∃ x, f.folded last column (cs ++ [c]) = x ++ [c] := by
  induction cs generalizing last column with
  | nil => exact ⟨[], folded_char (hbreak c (by simp)) hc last column []⟩
  | cons d r ih =>
    rw [List.cons_append, List.forall_mem_cons] at hbreak
    rw [List.cons_append, folded, hbreak.1, if_neg Bool.false_ne_true]
    -- A blank may become a line break, and the last character is no blank.
    split
    · obtain ⟨x, hx⟩ := ih hbreak.2 d f.indent
      exact ⟨newLine f.indent ++ x, by rw [hx, List.append_assoc]⟩
    · obtain ⟨x, hx⟩ := ih hbreak.2 d (column + 1)
      exact ⟨d :: x, by rw [hx]; rfl⟩

end Frame

namespace Node

mutual

/-- Whether a node that is a part of a collection is written with a blank at its end. -/
def endsBlank : Node → Bool
  | .scalar tag text => styleOf tag text = .plain && text.shown.toList.getLast?.all Text.isBlank
  | .sequence _ items => lastEndsBlank items
  | .mapping _ entries => lastValueEndsBlank entries

/-- Whether the last item of a sequence is. -/
def lastEndsBlank : List Node → Bool
  | [] => false
  | [n] => n.endsBlank
  | _ :: n :: ns => lastEndsBlank (n :: ns)

/-- Whether the value of the last entry of a mapping is. -/
def lastValueEndsBlank : List (Node × Node) → Bool
  | [] => false
  | [(_, v)] => v.endsBlank
  | _ :: e :: es => lastValueEndsBlank (e :: es)

end

end Node

/-- A plain scalar ends as its text does. -/
theorem endsAs_write_plain {cs : List Char} (h : Style.allowsPlain cs) (f : Frame) (column : Nat) :
    EndsAs (' ' :: Style.plain.write f column cs) (cs.getLast?.all Text.isBlank) := by
  rcases List.eq_nil_or_concat' cs with rfl | ⟨u, c, rfl⟩
  · rfl
  · simp only [Style.allowsPlain, Bool.and_eq_true] at h
    obtain ⟨⟨⟨⟨-, hlast⟩, -⟩, hbreak⟩, -⟩ := h
    rw [Bool.not_eq_true', List.any_eq_false] at hbreak
    have hc : c ≠ ' ' := by simpa using hlast
    obtain ⟨x, hx⟩ := Frame.exists_folded_concat (f := f) (fun d hd => eq_false_of_ne_true (hbreak d hd))
      hc ' ' column
    rw [Style.write, hx, List.getLast?_concat]
    exact EndsAs.append (x := [c]) rfl (' ' :: x)

/-- A scalar in quotes ends in a quote. -/
theorem endsAs_of_styleOf_ne {tag : Tag} {text : CodeText} (h : Node.styleOf tag text ≠ .plain)
    (folds : Bool) (indent column : Nat) :
    EndsAs (Node.scalarText folds indent column tag text) false := by
  obtain ⟨double, b, hwrite, -⟩ := Lexer.exists_quotedBody_scalarText h folds indent column
  have hquote : EndsAs [quoteOf double] false := by cases double <;> rfl
  rw [hwrite]
  exact (hquote.append b).cons _

/-- A scalar behind a blank ends as its text does if it is plain, and in a quote otherwise. -/
theorem endsAs_scalarText (folds : Bool) (indent column : Nat) (tag : Tag) (text : CodeText) :
    EndsAs (' ' :: Node.scalarText folds indent column tag text) (Node.scalar tag text).endsBlank := by
  rw [Node.endsBlank]
  by_cases hstyle : Node.styleOf tag text = .plain
  -- Only characters can be written plain: a surrogate has to be escaped.
  · obtain ⟨s, rfl, hplain⟩ := Lexer.exists_of_styleOf_eq_plain hstyle
    rw [Node.scalarText, hstyle, decide_eq_true rfl, Bool.true_and]
    exact endsAs_write_plain hplain _ _
  · rw [decide_eq_false hstyle, Bool.false_and]
    exact (endsAs_of_styleOf_ne hstyle folds indent column).cons ' '

mutual

/-- The last character of a node behind a mark, -/
theorem endsAs_afterMark : (n : Node) → (column : Nat) → EndsAs (n.afterMark column) n.endsBlank
  | .scalar tag text, column => by
    rw [Node.afterMark]
    exact endsAs_scalarText _ _ _ _ _
  | .sequence _ [], _ => by
    rw [Node.afterMark, Node.endsBlank, Node.lastEndsBlank]
    rfl
  | .sequence _ (n :: ns), column => by
    rw [Node.afterMark, Node.endsBlank]
    exact (endsAs_itemLines (n :: ns) (column + 2) (List.cons_ne_nil n ns)).cons ' '
  | .mapping _ [], _ => by
    rw [Node.afterMark, Node.endsBlank, Node.lastValueEndsBlank]
    rfl
  | .mapping _ (e :: es), column => by
    rw [Node.afterMark, Node.endsBlank]
    exact (endsAs_entryLines (e :: es) (column + 2) (List.cons_ne_nil e es)).cons ' '

/-- of a node behind a key, -/
theorem endsAs_afterKey : (n : Node) → (column m : Nat) → EndsAs (n.afterKey column m) n.endsBlank
  | .scalar tag text, column, m => by
    rw [Node.afterKey]
    exact endsAs_scalarText _ _ _ _ _
  | .sequence _ [], _, _ => by
    rw [Node.afterKey, Node.endsBlank, Node.lastEndsBlank]
    rfl
  | .sequence _ (n :: ns), column, _ => by
    rw [Node.afterKey, Node.endsBlank]
    exact (endsAs_itemLines (n :: ns) column (List.cons_ne_nil n ns)).append _
  | .mapping _ [], _, _ => by
    rw [Node.afterKey, Node.endsBlank, Node.lastValueEndsBlank]
    rfl
  | .mapping _ (e :: es), column, _ => by
    rw [Node.afterKey, Node.endsBlank]
    exact (endsAs_entryLines (e :: es) (column + 2) (List.cons_ne_nil e es)).append _

/-- of the items of a sequence, -/
theorem endsAs_itemLines : (ns : List Node) → (column : Nat) → ns ≠ [] →
    EndsAs ((newLine column).intercalate (Node.itemLines column ns)) (Node.lastEndsBlank ns)
  | [], _, h => absurd rfl h
  | [n], column, _ => by
    rw [Node.itemLines, Node.itemLines, List.intercalate_singleton, Node.lastEndsBlank]
    exact (endsAs_afterMark n column).cons '-'
  | n :: n' :: ns, column, _ => by
    have hrest := endsAs_itemLines (n' :: ns) column (List.cons_ne_nil n' ns)
    rw [Node.itemLines] at hrest ⊢
    rw [Node.itemLines, List.intercalate_cons_cons, Node.lastEndsBlank]
    exact hrest.append _

/-- and of the entries of a mapping. -/
theorem endsAs_entryLines : (es : List (Node × Node)) → (column : Nat) → es ≠ [] →
    EndsAs ((newLine column).intercalate (Node.entryLines column es)) (Node.lastValueEndsBlank es)
  | [], _, h => absurd rfl h
  | [(k, v)], column, _ => by
    rw [Node.entryLines, Node.entryLines, List.intercalate_singleton, Node.lastValueEndsBlank]
    split
    · exact (endsAs_afterKey v column _).append _
    · exact ((endsAs_afterMark v column).cons ':').append _
  | (k, v) :: (k', v') :: es, column, _ => by
    have hrest := endsAs_entryLines ((k', v') :: es) column (List.cons_ne_nil (k', v') es)
    rw [Node.entryLines] at hrest ⊢
    rw [Node.entryLines, List.intercalate_cons_cons, Node.lastValueEndsBlank]
    exact hrest.append _

end

/-- Whether the document of a node has a blank in front of its last line break. A scalar alone is
    followed by a mark or stands in quotes. -/
def Node.bodyEndsBlank : Node → Bool
  | .scalar _ _ => false
  | .sequence _ items => lastEndsBlank items
  | .mapping _ entries => lastValueEndsBlank entries

/-- A document ends as its last node does, in front of its last line break. -/
theorem endsAs_body (n : Node) : EndsAs n.body n.bodyEndsBlank := by
  match n with
  | .scalar tag text =>
    rw [Node.body, Node.bodyEndsBlank]
    split
    · have hmark : EndsAs (newLine 0 ++ ['.', '.', '.']) false := rfl
      exact hmark.append _
    · next hstyle =>
      rw [List.append_nil]
      exact endsAs_of_styleOf_ne hstyle _ _ _
  | .sequence _ [] => rfl
  | .mapping _ [] => rfl
  | .sequence _ (n :: ns) =>
    exact endsAs_itemLines (n :: ns) 0 (List.cons_ne_nil n ns)
  | .mapping _ (e :: es) =>
    exact endsAs_entryLines (e :: es) 0 (List.cons_ne_nil e es)

/-! ## The last leaf of a value -/

theorem endsAs_of_forall {x : List Char} {blank : Bool} (hne : x ≠ [])
    (h : ∀ c ∈ x, Text.isBlank c = blank) : EndsAs x blank := by
  rw [EndsAs, List.getLast?_eq_some_getLast hne]
  exact congrArg some (h _ (List.getLast_mem hne))

theorem isBlank_of_isDigit {c : Char} (h : c.isDigit) : Text.isBlank c = false := by
  simp only [Char.isDigit, Bool.and_eq_true, decide_eq_true_eq] at h
  have hlow : 48 ≤ c.toNat := h.1
  have hhigh : c.toNat ≤ 57 := h.2
  simp [Text.isBlank]
  omega

theorem endsAs_natText (n : Nat) : EndsAs (Numeral.natText n) false :=
  endsAs_of_forall Nat.toDigits_ne_nil fun _ hc => isBlank_of_isDigit (Numeral.isDigit_of_mem_natText hc)

theorem endsAs_intText (i : Int) : EndsAs (Numeral.intText i).toList false := by
  rw [Numeral.intText, String.toList_ofList]
  split
  · exact (endsAs_natText _).cons '-'
  · exact endsAs_natText _

/-- No digit is a blank. -/
theorem isBlank_of_mem_shortest {m : Nat} {e : Int} {c : Char} (h : c ∈ (Double.shortest m e).1) :
    Text.isBlank c = false := by
  rw [Double.shortest] at h
  split at h
  · rw [List.mem_singleton.1 h]
    rfl
  · have hmem : c ∈ Double.shortest.withoutZeros (Nat.toDigits 10 _) := h
    rw [Double.shortest.withoutZeros, List.mem_reverse] at hmem
    have hdigit := List.mem_reverse.1 ((List.dropWhile_suffix _).subset hmem)
    exact isBlank_of_isDigit (Nat.isDigit_of_mem_toDigits (by decide) (by decide) hdigit)

/-- A numeral ends in a digit, also if it has a point, -/
theorem endsAs_positional {digits : List Char} (h : ∀ c ∈ digits, Text.isBlank c = false) (place : Int) :
    EndsAs (Double.positional digits place) false := by
  have hzero : Text.isBlank '0' = false := by decide
  have hpoint : Text.isBlank '.' = false := by decide
  rw [Double.positional]
  split
  · refine endsAs_of_forall (List.cons_ne_nil _ _) ?_
    simp only [List.cons_append, List.forall_mem_cons, List.forall_mem_append]
    exact ⟨hzero, hpoint, fun c hc => by rwa [List.eq_of_mem_replicate hc], h⟩
  · split
    · have hend : EndsAs ['.', '0'] false := rfl
      exact hend.append _
    · refine endsAs_of_forall (by simp) ?_
      simp only [List.forall_mem_cons, List.forall_mem_append]
      exact ⟨fun c hc => h c (List.mem_of_mem_take hc), hpoint,
        fun c hc => h c (List.mem_of_mem_drop hc)⟩

/-- or an exponent. -/
theorem endsAs_withExponent (style : FloatStyle) (digits : List Char) (place : Int) :
    EndsAs (Double.withExponent style digits place) false := by
  have hsize := endsAs_natText (place - 1).natAbs
  unfold Double.withExponent
  refine .append (.cons (.cons ?_ _) _) _
  split
  · exact hsize.cons '0'
  · exact hsize

theorem endsAs_float (x : Double) : EndsAs (x.text Node.floatStyle).toList false := by
  cases x with
  | nan => rfl
  | infinite negative => cases negative <;> rfl
  | finite negative m e =>
    have hbody (place : Int) : EndsAs (if -4 < place ∧ place ≤ 16 then
        Double.positional (Double.shortest m e).1 place
      else Double.withExponent Node.floatStyle (Double.shortest m e).1 place) false := by
      split
      · exact endsAs_positional (fun c hc => isBlank_of_mem_shortest hc) _
      · exact endsAs_withExponent _ _ _
    rw [Double.text]
    cases negative with
    | true =>
      rw [String.toList_ofList]
      exact (hbody _).cons '-'
    | false =>
      rw [String.toList_ofList]
      exact hbody _

theorem endsAs_padded (width n : Nat) : EndsAs (padded width n).toList false := by
  rw [padded, String.toList_ofList]
  exact (endsAs_natText n).append _

theorem endsAs_clockText (c : Clock) : EndsAs c.text.toList false := by
  have happend {s t : String} (h : EndsAs t.toList false) : EndsAs (s ++ t).toList false := by
    rw [String.toList_append]
    exact h.append _
  rw [Clock.text]
  cases c.offset with
  | some m => exact happend (happend (endsAs_padded 2 _))
  | none =>
    rw [String.append_empty]
    split
    · rw [String.append_empty]
      exact happend (endsAs_padded 2 c.second)
    · exact happend (happend (endsAs_padded 6 c.micro))

theorem endsAs_dateText (d : Day) (clock : Option Clock) : EndsAs (dateText d clock).toList false := by
  cases clock with
  | none =>
    rw [dateText, Day.text, String.toList_append]
    exact (endsAs_padded 2 d.day).append _
  | some c =>
    rw [dateText, String.toList_append]
    exact (endsAs_clockText c).append _

/-- Whether a character is a blank beyond the ASCII ones. -/
def isWideBlank (c : Char) : Bool := Text.isBlank c && 0xA0 ≤ c.toNat

/-- The only blanks at the end of a plain scalar are wide. -/
theorem isBlank_iff_isWideBlank {cs : List Char} (h : Style.allowsPlain cs) {c : Char}
    (hc : cs.getLast? = some c) : Text.isBlank c = isWideBlank c := by
  have hmem : c ∈ cs := List.mem_of_getLast? hc
  simp only [Style.allowsPlain, Bool.and_eq_true, hc] at h
  obtain ⟨⟨⟨⟨-, hlast⟩, hshown⟩, hbreak⟩, -⟩ := h
  rw [Bool.not_eq_true', List.any_eq_false] at hbreak
  -- A plain scalar has no line breaks and does not end in the blank, so no narrow blank is left.
  replace hshown := List.all_eq_true.1 hshown c hmem
  replace hbreak := isBreak_eq_false hshown (eq_false_of_ne_true (hbreak c hmem))
  have hspace : c.toNat ≠ 32 := fun h => by
    have hc : c = ' ' := Char.toNat_inj.1 h
    rw [hc] at hlast
    exact absurd hlast (by decide)
  have hline : c.toNat ≠ 10 := fun h => by
    have hc : c = '\n' := Char.toNat_inj.1 h
    rw [hc] at hbreak
    exact absurd hbreak (by decide)
  rw [Bool.eq_iff_iff, isWideBlank, Bool.and_eq_true, decide_eq_true_eq, iff_self_and]
  intro hblank
  simp only [Text.isBlank, isShown, isBreak, Bool.or_eq_true, Bool.and_eq_true, beq_iff_eq,
    decide_eq_true_eq, Bool.or_eq_false_iff, beq_eq_false_iff_ne] at hblank hshown hbreak
  omega

/-- Whether the last leaf of a value is a text that is written plain and ends in a wide blank. -/
def endsWide : Value → Bool
  | .scalar (.str s) => Node.styleOf .str (.whole s) = .plain && s.toList.getLast?.any isWideBlank
  | .scalar _ => false
  | .list vs => lastEndsWide vs
  | .tuple vs => lastEndsWide vs
  | .map es => lastValueEndsWide es
where
  /-- Whether the last item of a list does. -/
  lastEndsWide : List Value → Bool
    | [] => false
    | [v] => endsWide v
    | _ :: v :: vs => lastEndsWide (v :: vs)
  /-- Whether the value of the last entry of a mapping does. -/
  lastValueEndsWide : Mapping → Bool
    | [] => false
    | [(_, v)] => endsWide v
    | _ :: e :: es => lastValueEndsWide (e :: es)

theorem endsBlank_eq_false {tag : Tag} {text : String} (h : EndsAs text.toList false) :
    (Node.scalar tag (.whole text)).endsBlank = false := by
  obtain ⟨c, hc, hblank⟩ := Option.map_eq_some_iff.1 h
  rw [Node.endsBlank, CodeText.shown, hc, Option.all_some, hblank, Bool.and_false]

/-- Of all scalars only texts can end in a blank. -/
theorem endsBlank_ofScalar {s : Scalar} {n : Node} (h : Node.ofScalar s = .ok n) :
    n.endsBlank = endsWide (.scalar s) := by
  cases s with
  | null => cases h; rfl
  | bool b => cases h; cases b <;> rfl
  | int i =>
    obtain ⟨text, htext, rfl⟩ := exists_of_map_eq_ok h
    rw [Numeral.intText?] at htext
    split at htext
    · cases htext
      exact endsBlank_eq_false (endsAs_intText i)
    · cases htext
  | float x =>
    cases h
    exact endsBlank_eq_false (endsAs_float x)
  | str s =>
    cases h
    rw [Node.endsBlank, endsWide, CodeText.shown]
    by_cases hstyle : Node.styleOf .str (.whole s) = .plain
    · have hne : s.toList ≠ [] := fun hnil => by
        rw [String.toList_eq_nil_iff.1 hnil] at hstyle
        exact absurd hstyle (by decide)
      have hlast := List.getLast?_eq_some_getLast hne
      rw [hlast, Option.all_some, Option.any_some,
        isBlank_iff_isWideBlank (allowsPlain_of_ofText hstyle) hlast]
    · rw [decide_eq_false hstyle, Bool.false_and, Bool.false_and]
  | ragged t =>
    cases h
    rfl
  | date d clock =>
    cases h
    exact endsBlank_eq_false (endsAs_dateText d clock)

mutual

/-- The node of a value is written with a blank at its end if the value ends in a wide blank, -/
theorem endsBlank_ofOrdered : (v : Value) → (n : Node) → Node.ofOrdered v = .ok n →
    n.endsBlank = endsWide v
  | .scalar s, n, h => endsBlank_ofScalar h
  | .list vs, n, h => by
    obtain ⟨ns, hns, rfl⟩ := exists_of_map_eq_ok h
    exact lastEndsBlank_ofItems vs ns hns
  | .tuple vs, n, h => by
    obtain ⟨ns, hns, rfl⟩ := exists_of_map_eq_ok h
    exact lastEndsBlank_ofItems vs ns hns
  | .map es, n, h => by
    obtain ⟨ns, hns, rfl⟩ := exists_of_map_eq_ok h
    exact lastValueEndsBlank_ofEntries es ns hns

/-- as for the last item of a list, -/
theorem lastEndsBlank_ofItems : (vs : List Value) → (ns : List Node) →
    Node.ofOrdered.ofItems vs = .ok ns → Node.lastEndsBlank ns = endsWide.lastEndsWide vs
  | [], ns, h => by
    cases h
    rfl
  | [v], ns, h => by
    obtain ⟨n, hn, h⟩ := exists_of_bind_eq_ok h
    cases h
    exact endsBlank_ofOrdered v n hn
  | v :: v' :: vs, ns, h => by
    obtain ⟨n, hn, h⟩ := exists_of_bind_eq_ok h
    obtain ⟨ns', hns', h⟩ := exists_of_bind_eq_ok h
    cases h
    have hrest := lastEndsBlank_ofItems (v' :: vs) ns' hns'
    -- There is a node for the second item, so the last one is among the rest.
    obtain ⟨n', hn', hns'⟩ := exists_of_bind_eq_ok hns'
    obtain ⟨ns'', hns'', hns'⟩ := exists_of_bind_eq_ok hns'
    cases hns'
    exact hrest

/-- and the value of the last entry of a mapping. -/
theorem lastValueEndsBlank_ofEntries : (es : Mapping) → (ns : List (Node × Node)) →
    Node.ofOrdered.ofEntries es = .ok ns → Node.lastValueEndsBlank ns = endsWide.lastValueEndsWide es
  | [], ns, h => by
    cases h
    rfl
  | [(k, v)], ns, h => by
    obtain ⟨key, hkey, h⟩ := exists_of_bind_eq_ok h
    obtain ⟨n, hn, h⟩ := exists_of_bind_eq_ok h
    cases h
    exact endsBlank_ofOrdered v n hn
  | (k, v) :: (k', v') :: es, ns, h => by
    obtain ⟨key, hkey, h⟩ := exists_of_bind_eq_ok h
    obtain ⟨n, hn, h⟩ := exists_of_bind_eq_ok h
    obtain ⟨ns', hns', h⟩ := exists_of_bind_eq_ok h
    cases h
    have hrest := lastValueEndsBlank_ofEntries ((k', v') :: es) ns' hns'
    obtain ⟨key', hkey', hns'⟩ := exists_of_bind_eq_ok hns'
    obtain ⟨n', hn', hns'⟩ := exists_of_bind_eq_ok hns'
    obtain ⟨ns'', hns'', hns'⟩ := exists_of_bind_eq_ok hns'
    cases hns'
    exact hrest

end

/-! ## Displays -/

/-- Whether the display of a value lacks more than a line break: it is a collection, and its last leaf,
    with all keys in order, is a text that is written plain and ends in a wide blank. -/
def losesBlanks : Value → Bool
  | .scalar _ => false
  | v => endsWide (Node.ordered v)

theorem exists_scalar_of_ofScalar {s : Scalar} {n : Node} (h : Node.ofScalar s = .ok n) :
    ∃ tag text, n = .scalar tag text := by
  cases s with
  | int i =>
    obtain ⟨text, -, rfl⟩ := exists_of_map_eq_ok h
    exact ⟨_, _, rfl⟩
  | _ =>
    cases h
    exact ⟨_, _, rfl⟩

/-- The values that lose blanks are those whose documents end in one. -/
theorem bodyEndsBlank_ofValue {v : Value} {n : Node} (h : Node.ofValue v = .ok n) :
    n.bodyEndsBlank = losesBlanks v := by
  have hends := endsBlank_ofOrdered (Node.ordered v) n h
  cases v with
  | scalar s =>
    obtain ⟨tag, text, rfl⟩ := exists_scalar_of_ofScalar h
    rfl
  | list vs =>
    obtain ⟨ns, -, rfl⟩ := exists_of_map_eq_ok h
    exact hends
  | tuple vs =>
    obtain ⟨ns, -, rfl⟩ := exists_of_map_eq_ok h
    exact hends
  | map es =>
    obtain ⟨ns, -, rfl⟩ := exists_of_map_eq_ok h
    exact hends

/-- Without its last line break a document is read as it is with it. -/
theorem read_body (n : Node) : read (String.ofList n.body) = read (String.ofList n.text) := by
  rw [read, read, String.toList_ofList, String.toList_ofList, Node.text_eq_body_append,
    tokens_body_append]

/-- The display of a value is its document without the last line break, and is read as the document is,
    unless the value is one of those that lose blanks. -/
theorem read_display {v : Value} {t : String} (h : write v = .ok t) :
    ∃ d, display v = .ok d ∧ (t = d ++ "\n" ↔ losesBlanks v = false) ∧
      (losesBlanks v = false → read d = read t) := by
  obtain ⟨n, hn, rfl⟩ := exists_of_map_eq_ok h
  have hends := endsAs_body n
  rw [bodyEndsBlank_ofValue hn] at hends
  -- The line break at the end goes first, and what else goes is decided by the last character of the
  -- body.
  have hstripped : stripped (String.ofList n.text) = String.ofList (Text.trimEnd n.body) := by
    rw [stripped, String.toList_ofList, Node.text_eq_body_append, trimEnd_append_newLine]
  refine ⟨stripped (String.ofList n.text), by rw [display, h]; rfl, ?_, fun hkeeps => ?_⟩
  · rw [hstripped, ← trimEnd_eq_self_iff hends, ← String.toList_inj, String.toList_append,
      String.toList_ofList, String.toList_ofList, Node.text_eq_body_append]
    exact (List.append_left_inj _).trans eq_comm
  · rw [hstripped, (trimEnd_eq_self_iff hends).2 hkeeps, read_body]

/-- The last leaf of a nested value may end in blanks if it stands in quotes. -/
theorem read_display_of_entry :
    let v : Value := .map [(.str "k", .map [(.str "l", .list [.str "a", .str " b\u00a0 "])])]
    let t := "k:\n  l:\n  - a\n  - ' b\u00a0 '\n"
    write v = .ok t ∧ losesBlanks v = false ∧ read t = .ok v ∧
      ∃ d, display v = .ok d ∧ read d = .ok v := by
  intro v t
  have hwrite : write v = .ok t := by decide +kernel
  have hkeeps : losesBlanks v = false := by decide +kernel
  have hread : read t = .ok v := by decide +kernel
  obtain ⟨d, hd, -, hsame⟩ := read_display hwrite
  exact ⟨hwrite, hkeeps, hread, d, hd, (hsame hkeeps).trans hread⟩

/-- The display of a value whose last leaf ends in a no-break space is read as another value. -/
theorem display_loses_blank :
    let v : Value := .map [(.str "k", .str "a\u00a0")]
    ∃ t d, write v = .ok t ∧ read t = .ok v ∧ display v = .ok d ∧ read d ≠ .ok v :=
  ⟨"k: a\u00a0\n", "k: a", by decide +kernel, by decide +kernel, by decide +kernel, by decide +kernel⟩

end Stencil.Yaml
