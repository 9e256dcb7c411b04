import Stencil.Proofs.CarriedValues
import Stencil.Proofs.Delivery
import Stencil.Proofs.Places
import Stencil.Value.Table

/-!
# Tables are unambiguous

A table has no brackets: what belongs to a mapping is told by how far its lines are set in, and a
mapping that takes one line stands behind its key like a scalar. Nevertheless a table can be read back,
if all keys in it are words. The lines of an entry are one that is set in as far as the mapping, and
then lines that are set in further. A key ends at the first colon, and quotes tell the texts from the
other scalars.

* `Text.readShown_showCode`: a code point is read back from how it stands between quotes;
* `Text.quoteCodes_injective`: a text is told by its quoted form;
* `Text.flatten_injective`: where the entries of a mapping begin can be told;
* `entryLines_injective`: a row tells the key and what is shown of the value;
* `Value.table_unambiguous`: a value is told by its table, and each scalar takes one line of it.
-/

namespace Stencil

/-! ## Texts in quotes -/

namespace Text

variable {q c : Char} {ps qs : List CodePoint}

/-- The code point that `width` digits in base sixteen spell, and what follows them. -/
def readCode (width : Nat) (cs : List Char) : Option (CodePoint × List Char) :=
  (Numeral.inBase? 16 (cs.take width)).map fun n => (CodePoint.ofNat n, cs.drop width)

/-- The code point that a text between quotes starts with, and what follows it. -/
def readShown : List Char → Option (CodePoint × List Char)
  | [] => none
  | '\\' :: 't' :: r => some (.char '\t', r)
  | '\\' :: 'n' :: r => some (.char '\n', r)
  | '\\' :: 'r' :: r => some (.char '\r', r)
  | '\\' :: 'x' :: r => readCode 2 r
  | '\\' :: 'u' :: r => readCode 4 r
  | '\\' :: 'U' :: r => readCode 8 r
  | '\\' :: c :: r => some (.char c, r)
  | c :: r => some (.char c, r)

theorem foldlM_hexDigits {width n : Nat} (h : n < 16 ^ width) :
    (hexDigits width n).foldlM (Numeral.inBase?.step 16) 0 = some n := by
  induction width generalizing n with
  | zero => rw [Nat.lt_one_iff.1 h]; rfl
  | succ width ih =>
    have hfront : n / 16 < 16 ^ width := Nat.div_lt_of_lt_mul (by rwa [← Nat.pow_succ'])
    rw [hexDigits, List.foldlM_append, ih hfront, Option.bind_eq_bind, Option.bind_some,
      List.foldlM_cons, Json.inBase?_step_digitChar _ (Nat.mod_lt n (by decide)), Nat.div_add_mod]
    rfl

/-- A code point is read back from the digits of its number. -/
theorem readCode_hexDigits {width : Nat} {p : CodePoint} (h : p.toNat < 16 ^ (width + 1))
    (r : List Char) : readCode (width + 1) (hexDigits (width + 1) p.toNat ++ r) = some (p, r) := by
  have hlen := length_hexDigits (width + 1) p.toNat
  have hne : (hexDigits (width + 1) p.toNat).isEmpty = false :=
    List.isEmpty_eq_false_iff.2 (List.ne_nil_of_length_eq_add_one hlen)
  rw [readCode, List.take_left' hlen, List.drop_left' hlen, Numeral.inBase?, hne,
    if_neg Bool.false_ne_true, foldlM_hexDigits h, Option.map_some, CodePoint.ofNat_toNat]

theorem readShown_escapeByCode (c : Char) (r : List Char) :
    readShown (escapeByCode c ++ r) = some (.char c, r) := by
  have hread {width : Nat} (h : c.toNat < 16 ^ (width + 1)) :
      readCode (width + 1) (hexDigits (width + 1) c.toNat ++ r) = some (.char c, r) :=
    readCode_hexDigits (p := .char c) h r
  rw [escapeByCode]
  split
  · next h => exact hread (Nat.lt_succ_of_le h)
  split
  · next h => exact hread (Nat.lt_succ_of_le h)
  · exact hread (Nat.lt_trans (Json.toNat_lt c) (by decide))

theorem readShown_of_ne (h : c ≠ '\\') (r : List Char) :
    readShown (c :: r) = some (.char c, r) := by
  rw [readShown] <;> simp [h]

/-- A character is read back from how it stands between quotes. -/
theorem readShown_showChar (hq : q = '"' ∨ q = '\'') (c : Char) (r : List Char) :
    readShown (showChar q c ++ r) = some (.char c, r) := by
  rw [showChar]
  split
  · -- None of the characters behind a backslash that mean something else is a quote or a backslash.
    next h =>
    obtain rfl | rfl | rfl : c = '"' ∨ c = '\'' ∨ c = '\\' := by
      rcases h with rfl | rfl
      · exact hq.imp id .inl
      · exact .inr (.inr rfl)
    all_goals rfl
  next h =>
  split
  · next h => rw [h]; rfl
  split
  · next h => rw [h]; rfl
  split
  · next h => rw [h]; rfl
  split
  · exact readShown_of_ne (not_or.1 h).2 r
  · exact readShown_escapeByCode c r

/-- A code point is read back from how it stands between quotes. -/
theorem readShown_showCode (hq : q = '"' ∨ q = '\'') (p : CodePoint) (r : List Char) :
    readShown (showCode q p ++ r) = some (p, r) := by
  cases p with
  | char c => exact readShown_showChar hq c r
  | surrogate i =>
    have hlt : (CodePoint.surrogate i).toNat < 16 ^ 4 := by
      have hi := i.isLt
      rw [CodePoint.toNat]
      omega
    exact readCode_hexDigits hlt r

theorem flatMap_showCode_injective (hq : q = '"' ∨ q = '\'')
    (h : ps.flatMap (showCode q) = qs.flatMap (showCode q)) : ps = qs := by
  induction ps generalizing qs with
  | nil =>
    cases qs with
    | nil => rfl
    | cons p qs =>
      have hread := readShown_showCode hq p (qs.flatMap (showCode q))
      rw [← List.flatMap_cons, ← h] at hread
      exact absurd hread nofun
  | cons p ps ih =>
    have hread := readShown_showCode hq p (ps.flatMap (showCode q))
    rw [← List.flatMap_cons, h] at hread
    cases qs with
    | nil => exact absurd hread nofun
    | cons p' qs =>
      rw [List.flatMap_cons, readShown_showCode hq] at hread
      obtain ⟨rfl, hrest⟩ := Prod.mk.inj (Option.some.inj hread)
      rw [ih hrest.symm]

/-- A text is told by its quoted form. -/
theorem quoteCodes_injective (h : quoteCodes ps = quoteCodes qs) : ps = qs := by
  rw [quoteCodes, quoteCodes] at h
  obtain ⟨hq, h⟩ := List.cons.inj h
  rw [← hq] at h
  exact flatMap_showCode_injective (quoteFor_eq_or _) (List.append_cancel_right h)

theorem quoteCodes_map_char (cs : List Char) : quoteCodes (cs.map .char) = quote cs := by
  rw [quoteCodes, CodeText.map_shown_map_char, List.flatMap_map]
  rfl

/-- Between quotes there is no line break. -/
theorem newline_not_mem_showCode (hq : q = '"' ∨ q = '\'') (p : CodePoint) :
    '\n' ∉ showCode q p := by
  have hdigit (d : Fin 16) : '\n' ≠ Nat.digitChar d.val := by decide +revert
  have hcode (width n : Nat) : '\n' ∉ hexDigits width n := by
    induction width generalizing n with
    | zero => exact List.not_mem_nil
    | succ width ih =>
      rw [hexDigits, List.mem_append, List.mem_singleton, not_or]
      exact ⟨ih _, hdigit ⟨n % 16, Nat.mod_lt n (by decide)⟩⟩
  unfold showCode showChar escapeByCode
  grind

theorem head?_quoteCodes (ps : List CodePoint) :
    (quoteCodes ps).head? = some (quoteFor (ps.map CodePoint.shown)) := by
  rw [quoteCodes, List.cons_append, List.head?_cons]

theorem newline_not_mem_quoteCodes (ps : List CodePoint) : '\n' ∉ quoteCodes ps := by
  have hq := quoteFor_eq_or (ps.map CodePoint.shown)
  have hne : '\n' ≠ quoteFor (ps.map CodePoint.shown) := by
    rcases hq with h | h <;> rw [h] <;> decide
  rw [quoteCodes, List.cons_append, List.mem_cons, List.mem_append, List.mem_flatMap,
    List.mem_singleton]
  rintro (h | ⟨p, -, h⟩ | h)
  · exact hne h
  · exact newline_not_mem_showCode hq p h
  · exact hne h

end Text

/-! ## Lines -/

namespace Text

variable {m : List Char} {s t : String}

/-- The lines of a text. -/
def lines (s : String) : List (List Char) := pieces '\n' s.toList

theorem lines_injective (h : lines s = lines t) : s = t := by
  rw [← String.toList_inj, ← join_pieces '\n' s.toList, ← join_pieces '\n' t.toList]
  exact congrArg _ h

theorem lines_append (s t : String) : lines (s ++ "\n" ++ t) = lines s ++ lines t := by
  rw [lines, String.toList_append, String.toList_append, List.append_assoc]
  exact pieces_append_cons '\n' s.toList t.toList

theorem lines_intercalate {rows : List String} (h : rows ≠ []) :
    lines ("\n".intercalate rows) = rows.flatMap lines := by
  induction rows with
  | nil => exact absurd rfl h
  | cons row rows ih =>
    cases rows with
    | nil => rw [String.intercalate_singleton, List.flatMap_singleton]
    | cons row' rows =>
      rw [String.intercalate_cons_cons, lines_append, ih (List.cons_ne_nil _ _)]
      rfl

theorem lines_of_not_mem (h : '\n' ∉ s.toList) : lines s = [s.toList] := pieces_of_not_mem h

theorem length_lines_eq_one_iff : (lines s).length = 1 ↔ '\n' ∉ s.toList := by
  refine ⟨fun h hmem => ?_, fun h => by rw [lines_of_not_mem h, List.length_singleton]⟩
  obtain ⟨cs, ds, hs⟩ := List.append_of_mem hmem
  rw [lines, hs, pieces_append_cons, List.length_append] at h
  have hcs := List.length_pos_iff.2 (pieces_ne_nil '\n' cs)
  have hds := List.length_pos_iff.2 (pieces_ne_nil '\n' ds)
  omega

/-- Lines of which all but the first one start with the blanks `m`. -/
def IsBlock (m : List Char) (ls : List (List Char)) : Prop :=
  ∃ head tail, ls = head :: tail ∧ ¬m <+: head ∧ ∀ l ∈ tail, m <+: l

/-- Where one block ends and the next one begins can be told. -/
theorem flatten_injective {bs cs : List (List (List Char))} (hb : ∀ b ∈ bs, IsBlock m b)
    (hc : ∀ c ∈ cs, IsBlock m c) (h : bs.flatten = cs.flatten) : bs = cs := by
  have hnext {bs : List (List (List Char))} (hb : ∀ b ∈ bs, IsBlock m b) :
      ∀ l ∈ bs.flatten.head?, m.isPrefixOf l = false := by
    cases bs with
    | nil => exact nofun
    | cons b bs =>
      obtain ⟨head, tail, rfl, hhead, -⟩ := hb b List.mem_cons_self
      rintro l ⟨⟩
      exact Bool.eq_false_iff.2 fun h => hhead (List.isPrefixOf_iff_prefix.1 h)
  induction bs generalizing cs with
  | nil =>
    cases cs with
    | nil => rfl
    | cons c cs =>
      obtain ⟨head, tail, rfl, -⟩ := hc c List.mem_cons_self
      exact absurd h nofun
  | cons b bs ih =>
    obtain ⟨head, tail, rfl, -, htail⟩ := hb b List.mem_cons_self
    rw [List.forall_mem_cons] at hb
    cases cs with
    | nil => exact absurd h nofun
    | cons c cs =>
      obtain ⟨head', tail', rfl, -, htail'⟩ := hc c List.mem_cons_self
      rw [List.forall_mem_cons] at hc
      obtain ⟨rfl, htails⟩ := List.cons.inj h
      change tail ++ bs.flatten = tail' ++ cs.flatten at htails
      -- The rest of a block is what starts with the blanks.
      have hspan := Numeral.span_append (fun l hl => List.isPrefixOf_iff_prefix.2 (htail l hl))
        (hnext hb.2)
      rw [htails, Numeral.span_append (fun l hl => List.isPrefixOf_iff_prefix.2 (htail' l hl))
        (hnext hc.2)] at hspan
      obtain ⟨rfl, hrest⟩ := Prod.mk.inj hspan
      rw [ih hb.2 hc.2 hrest.symm]

end Text

/-! ## Rows -/

/-- A text of ASCII letters, digits and underscores. -/
structure IsWord (s : String) : Prop where
  ne_empty : s ≠ ""
  ascii : ∀ c ∈ s.toList, c.isAlphanum ∨ c = '_'

theorem isWord_iff {s : String} :
    s ≠ "" ∧ (s.toList.all fun c => c.isAlphanum || c == '_') ↔ IsWord s := by
  simp only [List.all_eq_true, Bool.or_eq_true, beq_iff_eq]
  exact ⟨fun ⟨h, h'⟩ => ⟨h, h'⟩, fun ⟨h, h'⟩ => ⟨h, h'⟩⟩

instance (s : String) : Decidable (IsWord s) := decidable_of_iff _ isWord_iff

section Rows

variable {d : Nat} {m s s' t t' : String} {c : Char} {es : Mapping} {rows : List String}

theorem IsWord.not_mem (h : IsWord s) (hc : (c.isAlphanum || c == '_') = false) : c ∉ s.toList := by
  intro hmem
  rw [Bool.or_eq_false_iff, beq_eq_false_iff_ne] at hc
  exact (h.ascii c hmem).elim (fun h => absurd h (Bool.eq_false_iff.1 hc.1)) hc.2

theorem toList_entryLines (m s t : String) : (entryLines m s t).toList =
    m.toList ++ (s.toList ++ ':' :: (if '\n' ∈ t.toList then '\n' else ' ') :: t.toList) := by
  rw [entryLines]
  by_cases h : '\n' ∈ t.toList <;> simp [h]

/-- A row tells the key and what is shown of the value. -/
theorem entryLines_injective (hs : ':' ∉ s.toList) (hs' : ':' ∉ s'.toList)
    (h : entryLines m s t = entryLines m s' t') : s = s' ∧ t = t' := by
  have hcut {s : String} (hs : ':' ∉ s.toList) (r : List Char) :
      (s.toList ++ ':' :: r).span (· != ':') = (s.toList, ':' :: r) :=
    Numeral.span_append (fun c hc => bne_iff_ne.2 fun h => hs (h ▸ hc)) (by simp)
  rw [← String.toList_inj, toList_entryLines, toList_entryLines, List.append_cancel_left_eq] at h
  have hspan := hcut hs ((if '\n' ∈ t.toList then '\n' else ' ') :: t.toList)
  rw [h, hcut hs'] at hspan
  obtain ⟨hkey, hrest⟩ := Prod.mk.inj hspan
  exact ⟨String.toList_inj.1 hkey.symm,
    String.toList_inj.1 (List.cons.inj (List.cons.inj hrest).2).2.symm⟩

theorem toList_margin (d : Nat) : (margin d).toList = List.replicate (2 * d) ' ' :=
  String.toList_ofList

theorem toList_margin_succ (d : Nat) : (margin (d + 1)).toList = (margin d).toList ++ [' ', ' '] := by
  rw [toList_margin, toList_margin, Nat.mul_succ, List.replicate_add]
  rfl

theorem newline_not_mem_margin (d : Nat) : '\n' ∉ (margin d).toList := by
  rw [toList_margin, List.mem_replicate]
  exact fun h => absurd h.2 (by decide)

/-- The first line of a row is set in as far as the row and no further. -/
theorem not_margin_succ_prefix (hs : IsWord s) (r : List Char) :
    ¬(margin (d + 1)).toList <+: (margin d).toList ++ (s.toList ++ r) := by
  rw [toList_margin_succ, List.prefix_append_right_inj]
  intro h
  cases hcs : s.toList with
  | nil => exact hs.ne_empty (String.toList_eq_nil_iff.1 hcs)
  | cons c cs =>
    rw [hcs] at h
    obtain rfl := (List.cons_prefix_cons.1 h).1
    exact hs.not_mem (by decide) (hcs ▸ List.mem_cons_self)

/-- A row starts with a blank or with a character of its key. -/
theorem head?_row (hs : IsWord s) {r : List Char}
    (hc : c ∈ ((margin d).toList ++ (s.toList ++ r)).head?) : c = ' ' ∨ c ∈ s.toList := by
  have hne : s.toList ≠ [] := fun he => hs.ne_empty (String.toList_eq_nil_iff.1 he)
  rw [List.head?_append, List.head?_append_of_ne_nil _ hne] at hc
  cases hm : (margin d).toList.head? with
  | none =>
    rw [hm, Option.none_or] at hc
    exact .inr (List.mem_of_mem_head? hc)
  | some c' =>
    rw [hm, Option.some_or] at hc
    obtain rfl := Option.some.inj hc
    have hblank := List.mem_of_mem_head? hm
    rw [toList_margin, List.mem_replicate] at hblank
    exact .inl hblank.2

theorem lines_entryLines (hs : IsWord s) (t : String) : Text.lines (entryLines (margin d) s t) =
    if '\n' ∈ t.toList then ((margin d).toList ++ (s.toList ++ [':'])) :: Text.lines t
    else [(margin d).toList ++ (s.toList ++ ':' :: ' ' :: t.toList)] := by
  have hhead : '\n' ∉ (margin d).toList ++ (s.toList ++ [':']) := by
    simpa using And.intro (newline_not_mem_margin d) (hs.not_mem (by decide))
  rw [Text.lines, toList_entryLines]
  split
  · rw [Text.lines, ← Text.pieces_append hhead]
    simp
  · next ht =>
    rw [Text.pieces_of_not_mem]
    simpa using ⟨newline_not_mem_margin d, hs.not_mem (by decide), ht⟩

/-- What the rows of a mapping under words are. -/
def IsRow (d : Nat) (e : Key × Value) (row : String) : Prop :=
  ∃ s t, e.1 = .str s ∧ IsWord s ∧ e.2.table? (d + 1) = some t ∧ row = entryLines (margin d) s t

theorem forall₂_rows? (hkeys : ∀ e ∈ es, ∃ s, e.1 = .str s ∧ IsWord s)
    (h : Value.table?.rows? d es = some rows) : List.Forall₂ (IsRow d) es rows := by
  induction es generalizing rows with
  | nil =>
    obtain rfl := Option.some.inj h
    exact .nil
  | cons e es ih =>
    obtain ⟨k, v⟩ := e
    rw [List.forall_mem_cons] at hkeys
    obtain ⟨⟨s, rfl, hs⟩, hkeys⟩ := hkeys
    obtain ⟨t, ht, h⟩ := Option.bind_eq_some_iff.1 h
    rw [Key.text?_str, Option.bind_some] at h
    obtain ⟨rows, hrows, rfl⟩ := Option.map_eq_some_iff.1 h
    exact .cons ⟨s, t, rfl, hs, ht, rfl⟩ (ih hkeys hrows)

/-- Every row is that of an entry. -/
theorem exists_isRow (h : List.Forall₂ (IsRow d) es rows) : ∀ row ∈ rows, ∃ e ∈ es, IsRow d e row := by
  induction h with
  | nil => exact nofun
  | cons hrow hrows ih =>
    exact List.forall_mem_cons.2 ⟨⟨_, List.mem_cons_self, hrow⟩, fun row hmem =>
      (ih row hmem).imp fun e he => ⟨List.mem_cons_of_mem _ he.1, he.2⟩⟩

end Rows

namespace Value

/-! ## Tables -/

/-- A value that is a scalar other than a number in double precision and a date, or a mapping of such
    values under words. Texts may be ragged. -/
inductive Tabular : Value → Prop
  | null : Tabular .null
  | bool (b : Bool) : Tabular (.bool b)
  | int (i : Int) : Tabular (.int i)
  | text (s : CodeText) : Tabular (.ofText s)
  | map {es : Mapping} : (∀ e ∈ es, ∃ s, e.1 = .str s ∧ IsWord s) → (∀ e ∈ es, Tabular e.2) →
      Tabular (.map es)

/-- The number of lines of a value whose scalars take one line each. In a mapping, a value that takes
    one line stands on that of its key, and one that takes several comes after it. -/
def lineCount : Value → Nat
  | .map (e :: es) => entries (e :: es)
  | _ => 1
where
  /-- The number of lines of the entries of a mapping. -/
  entries : Mapping → Nat
    | [] => 0
    | (_, v) :: es => (if v.lineCount = 1 then 1 else 1 + v.lineCount) + entries es

variable {d : Nat} {v w : Value} {t : String} {es : Mapping} {c : Char}

/-- A text is shown in quotes. -/
theorem table?_ofText (d : Nat) (s : CodeText) :
    (ofText s).table? d = some (String.ofList (Text.quoteCodes s.codes)) := by
  cases s with
  | whole s =>
    rw [CodeText.codes, Text.quoteCodes_map_char]
    rfl
  | ragged s => rfl

/-- What is shown of a scalar that is no text. -/
theorem Tabular.bare (hv : v.Tabular) (htext : ∀ s, v ≠ .ofText s) (hmap : ∀ es, v ≠ .map es)
    (h : v.table? d = some t) : t ≠ "" ∧ ∀ c ∈ t.toList, c = '-' ∨ c.isAlphanum := by
  have hword {t : String} (hne : t ≠ "") (hall : t.toList.all Char.isAlphanum) :
      t ≠ "" ∧ ∀ c ∈ t.toList, c = '-' ∨ c.isAlphanum :=
    ⟨hne, fun c hc => .inr (List.all_eq_true.1 hall c hc)⟩
  cases hv with
  | null =>
    obtain rfl := Option.some.inj h
    exact hword (by decide) (by decide)
  | bool b =>
    obtain rfl := Option.some.inj h
    cases b <;> exact hword (by decide) (by decide)
  | int i =>
    obtain rfl := Numeral.eq_intText h
    refine ⟨fun he => ?_, fun c hc => (Coercion.eq_minus_or_isDigit hc).imp_right fun h => ?_⟩
    · have hread := Coercion.integer?_intText i
      rw [he] at hread
      exact absurd hread nofun
    · rw [Char.isAlphanum, h, Bool.or_true]
  | text s => exact absurd rfl (htext s)
  | map => exact absurd rfl (hmap _)

/-- The rows of a mapping, and its table as made of them. -/
theorem Tabular.rows (hv : (Value.map es).Tabular) (h : (Value.map es).table? d = some t) :
    ∃ rows, List.Forall₂ (IsRow d) es rows ∧ t = "\n".intercalate rows := by
  cases hv with | map hkeys hvalues
  obtain ⟨rows, hrows, rfl⟩ := Option.map_eq_some_iff.1 h
  exact ⟨rows, forall₂_rows? hkeys hrows, rfl⟩

/-- The table of a mapping with entries starts with a key that is set in. -/
theorem Tabular.starts_with_key (hv : (Value.map es).Tabular) (hne : es ≠ [])
    (h : (Value.map es).table? d = some t) :
    ∃ s r, IsWord s ∧ t.toList = (margin d).toList ++ (s.toList ++ ':' :: r) := by
  obtain ⟨rows, hrows, rfl⟩ := hv.rows h
  cases hrows with
  | nil => exact absurd rfl hne
  | cons hrow hrows =>
    obtain ⟨s, t, -, hs, -, rfl⟩ := hrow
    refine ⟨s, ?_⟩
    cases hrows with
    | nil => 
      rw [String.intercalate_singleton, toList_entryLines]
      exact ⟨_, hs, rfl⟩
    | cons =>
      rw [String.intercalate_cons_cons, String.append_assoc, String.toList_append, toList_entryLines,
        List.append_assoc, List.append_assoc, List.cons_append]
      exact ⟨_, hs, rfl⟩

/-- Only a mapping without entries has a table without anything in it. -/
theorem Tabular.table?_eq_empty_iff (hv : (Value.map es).Tabular)
    (h : (Value.map es).table? d = some t) : t = "" ↔ es = [] := by
  constructor
  · rintro rfl
    by_contra hes
    obtain ⟨s, r, hs, ht⟩ := hv.starts_with_key hes h
    simp at ht
  · rintro rfl
    exact (Option.some.inj h).symm

/-- Only the table of a text starts with a quote. -/
theorem Tabular.isText_iff (hv : v.Tabular) (h : v.table? d = some t) :
    (∃ s, v = .ofText s) ↔ ∃ c ∈ t.toList.head?, c = '"' ∨ c = '\'' := by
  constructor
  · rintro ⟨s, rfl⟩
    obtain rfl := Option.some.inj ((table?_ofText d s).symm.trans h)
    rw [String.toList_ofList, Text.head?_quoteCodes]
    exact ⟨_, rfl, Text.quoteFor_eq_or _⟩
  rintro ⟨c, hc, hquote⟩
  have hne {c' : Char} (hc' : c' ≠ '"' ∧ c' ≠ '\'') : c ≠ c' := by
    rintro rfl
    exact hquote.elim hc'.1 hc'.2
  by_contra htext
  by_cases hmap : ∃ es, v = .map es
  · obtain ⟨es, rfl⟩ := hmap
    by_cases hes : es = []
    · subst hes
      obtain rfl := Option.some.inj h
      exact absurd hc nofun
    · obtain ⟨s, r, hs, ht⟩ := hv.starts_with_key hes h
      rw [ht] at hc
      rcases head?_row hs hc with rfl | hmem
      · exact absurd hquote (by decide)
      · rcases hquote with rfl | rfl
        · exact hs.not_mem (by decide) hmem
        · exact hs.not_mem (by decide) hmem
  · have hchar := (hv.bare (not_exists.1 htext) (not_exists.1 hmap) h).2 c (List.mem_of_mem_head? hc)
    rcases hquote with rfl | rfl <;> exact absurd hchar (by decide)

/-- Only the table of a mapping has nothing in it, or a colon and no quote in front. -/
theorem Tabular.isMap_iff (hv : v.Tabular) (h : v.table? d = some t) : (∃ es, v = .map es) ↔
    t = "" ∨ ':' ∈ t.toList ∧ ¬∃ c ∈ t.toList.head?, c = '"' ∨ c = '\'' := by
  rw [← hv.isText_iff h]
  constructor
  · rintro ⟨es, rfl⟩
    by_cases hes : es = []
    · subst hes
      exact .inl (Option.some.inj h).symm
    · obtain ⟨s, r, -, ht⟩ := hv.starts_with_key hes h
      exact .inr ⟨by simp [ht], nofun⟩
  · intro ht
    by_contra hmap
    by_cases htext : ∃ s, v = .ofText s
    · obtain ⟨c, hc, -⟩ := (hv.isText_iff h).1 htext
      rcases ht with rfl | ⟨-, ht⟩
      · exact absurd hc nofun
      · exact ht htext
    · obtain ⟨hne, hchar⟩ := hv.bare (not_exists.1 htext) (not_exists.1 hmap) h
      rcases ht with ht | ⟨hcolon, -⟩
      · exact hne ht
      · exact absurd (hchar _ hcolon) (by decide)

theorem Tabular.newline_not_mem (hv : v.Tabular) (hmap : ∀ es, v ≠ .map es)
    (h : v.table? d = some t) : '\n' ∉ t.toList := by
  by_cases htext : ∃ s, v = .ofText s
  · obtain ⟨s, rfl⟩ := htext
    obtain rfl := Option.some.inj ((table?_ofText d s).symm.trans h)
    rw [String.toList_ofList]
    exact Text.newline_not_mem_quoteCodes s.codes
  · intro hmem
    exact absurd ((hv.bare (not_exists.1 htext) hmap h).2 _ hmem) (by decide)

/-- A table of several lines is set in as a whole. -/
theorem Tabular.margin_isPrefix (hv : v.Tabular) (h : v.table? d = some t) (ht : '\n' ∈ t.toList) :
    ∀ l ∈ Text.lines t, (margin d).toList <+: l := by
  induction hv generalizing d t with
  | null => exact absurd ht (newline_not_mem .null nofun h)
  | bool b => exact absurd ht (newline_not_mem (.bool b) nofun h)
  | int i => exact absurd ht (newline_not_mem (.int i) nofun h)
  | text s => exact absurd ht (newline_not_mem (.text s) nofun h)
  | @map es hkeys hvalues ih =>
    obtain ⟨rows, hrows, rfl⟩ := Tabular.rows (.map hkeys hvalues) h
    have hne : rows ≠ [] := by
      rintro rfl
      exact absurd ht List.not_mem_nil
    intro l hl
    rw [Text.lines_intercalate hne, List.mem_flatMap] at hl
    obtain ⟨row, hrow, hl⟩ := hl
    obtain ⟨e, he, s, t', -, hs, ht', rfl⟩ := exists_isRow hrows row hrow
    rw [lines_entryLines hs] at hl
    split at hl
    · next hnl =>
      rcases List.mem_cons.1 hl with rfl | hl
      · exact List.prefix_append _ _
      · have := ih e he ht' hnl l hl
        rw [toList_margin_succ] at this
        exact (List.prefix_append _ _).trans this
    · rw [List.mem_singleton.1 hl]
      exact List.prefix_append _ _

/-- The lines of the rows of a mapping are told apart by how far they are set in. -/
theorem Tabular.isBlock_row (hv : (Value.map es).Tabular) {rows : List String}
    (h : List.Forall₂ (IsRow d) es rows) :
    ∀ b ∈ rows.map Text.lines, Text.IsBlock (margin (d + 1)).toList b := by
  cases hv with | map hkeys hvalues
  intro b hb
  obtain ⟨row, hrow, rfl⟩ := List.mem_map.1 hb
  obtain ⟨e, he, s, t, -, hs, ht, rfl⟩ := exists_isRow h row hrow
  rw [lines_entryLines hs]
  split
  · next hnl =>
    exact ⟨_, _, rfl, not_margin_succ_prefix hs _, (hvalues e he).margin_isPrefix ht hnl⟩
  · exact ⟨_, [], rfl, not_margin_succ_prefix hs _, nofun⟩

/-- The rows of mappings that are not empty are told by their table. -/
theorem Tabular.rows_injective {es' : Mapping} {rows rows' : List String}
    (hv : (Value.map es).Tabular) (hw : (Value.map es').Tabular) (hne : rows ≠ []) (hne' : rows' ≠ [])
    (hrows : List.Forall₂ (IsRow d) es rows) (hrows' : List.Forall₂ (IsRow d) es' rows')
    (h : "\n".intercalate rows = "\n".intercalate rows') : rows = rows' := by
  have hlines := congrArg Text.lines h
  rw [Text.lines_intercalate hne, Text.lines_intercalate hne', List.flatMap_def,
    List.flatMap_def] at hlines
  exact (List.map_inj_right fun _ _ => Text.lines_injective).1
    (Text.flatten_injective (hv.isBlock_row hrows) (hw.isBlock_row hrows') hlines)

/-- Entries are told by their rows if their values are told by their tables. -/
theorem eq_of_isRow {es' : Mapping} {rows : List String}
    (hvalue : ∀ e ∈ es, ∀ e' ∈ es', ∀ t, e.2.table? (d + 1) = some t →
      e'.2.table? (d + 1) = some t → e.2 = e'.2)
    (h : List.Forall₂ (IsRow d) es rows) (h' : List.Forall₂ (IsRow d) es' rows) : es = es' := by
  induction h generalizing es' with
  | nil => cases h' with | nil => rfl
  | @cons e row es rows hrow hrows ih =>
    cases h' with | @cons e' _ es' _ hrow' hrows'
    obtain ⟨s, t, hkey, hs, ht, rfl⟩ := hrow
    obtain ⟨s', t', hkey', hs', ht', heq⟩ := hrow'
    obtain ⟨rfl, rfl⟩ := entryLines_injective (hs.not_mem (by decide)) (hs'.not_mem (by decide)) heq
    have hfirst : e = e' := Prod.ext (hkey.trans hkey'.symm)
      (hvalue e List.mem_cons_self e' List.mem_cons_self t ht ht')
    rw [hfirst, ih (fun e he e' he' => hvalue e (List.mem_cons_of_mem _ he) e'
      (List.mem_cons_of_mem _ he')) hrows']

theorem integer?_of_table? {i : Int} (h : (Value.int i).table? d = some t) :
    Numeral.integer? t.toList = some i := by
  rw [Numeral.eq_intText h]
  exact Coercion.integer?_intText i

/-- A scalar that is no text is told by what is shown of it. -/
theorem Tabular.eq_of_bare (hv : v.Tabular) (hw : w.Tabular) (hbare : ¬∃ s, v = .ofText s)
    (hbare' : ¬∃ es, v = .map es) (h : v.table? d = some t) (h' : w.table? d = some t) : v = w := by
  have htext := ((hv.isText_iff h).trans (hw.isText_iff h').symm).not.1 hbare
  have hmap := ((hv.isMap_iff h).trans (hw.isMap_iff h').symm).not.1 hbare'
  cases hv with
  | null =>
    obtain rfl := Option.some.inj h
    cases hw with
    | null => rfl
    | bool b => cases b <;> exact absurd (Option.some.inj h') (by decide)
    | int i => exact absurd (integer?_of_table? h') nofun
    | text s => exact absurd ⟨s, rfl⟩ htext
    | map => exact absurd ⟨_, rfl⟩ hmap
  | bool b =>
    obtain rfl := Option.some.inj h
    cases hw with
    | null => cases b <;> exact absurd (Option.some.inj h') (by decide)
    | bool b' =>
      have heq := Option.some.inj h'
      cases b <;> cases b' <;> first | rfl | exact absurd heq (by decide)
    | int i => cases b <;> exact absurd (integer?_of_table? h') nofun
    | text s => exact absurd ⟨s, rfl⟩ htext
    | map => exact absurd ⟨_, rfl⟩ hmap
  | int i =>
    have hread := integer?_of_table? h
    cases hw with
    | null =>
      obtain rfl := Option.some.inj h'
      exact absurd hread nofun
    | bool b =>
      obtain rfl := Option.some.inj h'
      cases b <;> exact absurd hread nofun
    | int i' => rw [Option.some.inj (hread.symm.trans (integer?_of_table? h'))]
    | text s => exact absurd ⟨s, rfl⟩ htext
    | map => exact absurd ⟨_, rfl⟩ hmap
  | text s => exact absurd ⟨s, rfl⟩ hbare
  | map => exact absurd ⟨_, rfl⟩ hbare'

/-- A value is told by its table. -/
theorem Tabular.eq_of_table? (hv : v.Tabular) (hw : w.Tabular) (h : v.table? d = some t)
    (h' : w.table? d = some t) : v = w := by
  induction hv generalizing d w t with
  | null => exact eq_of_bare .null hw nofun nofun h h'
  | bool b => exact eq_of_bare (.bool b) hw nofun nofun h h'
  | int i => exact eq_of_bare (.int i) hw nofun nofun h h'
  | text s =>
    obtain ⟨s', rfl⟩ := (hw.isText_iff h').2 ((isText_iff (.text s) h).1 ⟨s, rfl⟩)
    rw [table?_ofText] at h h'
    have hquoted := String.ofList_inj.1 (Option.some.inj (h.trans h'.symm))
    rw [CodeText.codes_injective (Text.quoteCodes_injective hquoted)]
  | @map es hkeys hvalues ih =>
    have hv : (Value.map es).Tabular := .map hkeys hvalues
    obtain ⟨es', rfl⟩ := (hw.isMap_iff h').2 ((hv.isMap_iff h).1 ⟨es, rfl⟩)
    have hempty : es = [] ↔ es' = [] :=
      (hv.table?_eq_empty_iff h).symm.trans (hw.table?_eq_empty_iff h')
    by_cases hes : es = []
    · rw [hes, hempty.1 hes]
    obtain ⟨rows, hrows, rfl⟩ := hv.rows h
    obtain ⟨rows', hrows', htable⟩ := hw.rows h'
    have hne : rows ≠ [] := by
      rintro rfl
      exact hes (List.forall₂_nil_right_iff.1 hrows)
    have hne' : rows' ≠ [] := by
      rintro rfl
      exact hes (hempty.2 (List.forall₂_nil_right_iff.1 hrows'))
    obtain rfl := hv.rows_injective hw hne hne' hrows hrows' htable
    cases hw with | map hkeys' hvalues'
    rw [eq_of_isRow (fun e he e' he' t ht ht' => ih e he (hvalues' e' he') ht ht') hrows hrows']

/-- A row has one line, or one for the key and those of the value. -/
theorem length_lines_rows {rows : List String}
    (hvalue : ∀ e ∈ es, ∀ t, e.2.table? (d + 1) = some t → (Text.lines t).length = e.2.lineCount)
    (h : List.Forall₂ (IsRow d) es rows) :
    (rows.flatMap Text.lines).length = lineCount.entries es := by
  induction h with
  | nil => rfl
  | @cons e row es rows hrow hrows ih =>
    rw [List.forall_mem_cons] at hvalue
    obtain ⟨s, t, -, hs, ht, rfl⟩ := hrow
    have hcount := hvalue.1 t ht
    have hnl : '\n' ∈ t.toList ↔ e.2.lineCount ≠ 1 := by
      rw [← hcount, ne_eq, Text.length_lines_eq_one_iff, not_not]
    rw [List.flatMap_cons, List.length_append, ih hvalue.2, lineCount.entries, lines_entryLines hs]
    split
    · next h => rw [if_neg (hnl.1 h), List.length_cons, hcount, Nat.add_comm 1]
    · next h => rw [if_pos (not_not.1 (hnl.not.1 h)), List.length_singleton]

/-- No scalar adds a line, whatever it is. -/
theorem Tabular.length_lines (hv : v.Tabular) (h : v.table? d = some t) :
    (Text.lines t).length = v.lineCount := by
  induction hv generalizing d t with
  | null => exact Text.length_lines_eq_one_iff.2 (newline_not_mem .null nofun h)
  | bool b => exact Text.length_lines_eq_one_iff.2 (newline_not_mem (.bool b) nofun h)
  | int i => exact Text.length_lines_eq_one_iff.2 (newline_not_mem (.int i) nofun h)
  | text s => exact Text.length_lines_eq_one_iff.2 (newline_not_mem (.text s) nofun h)
  | @map es hkeys hvalues ih =>
    obtain ⟨rows, hrows, rfl⟩ := Tabular.rows (.map hkeys hvalues) h
    cases es with
    | nil => cases hrows with | nil => rfl
    | cons e es =>
      have hne : rows ≠ [] := by
        rintro rfl
        exact absurd (List.forall₂_nil_right_iff.1 hrows) (List.cons_ne_nil _ _)
      rw [Text.lines_intercalate hne, lineCount]
      exact length_lines_rows (fun e he t ht => ih e he ht) hrows

/-- A value whose mappings are all under words is told by its table, with the order of all entries; its
    texts, and no other scalars, are what stands behind a quote; and every scalar in it, whatever it
    is, takes one line. -/
theorem table_unambiguous (hv : v.Tabular) (h : v.table? d = some t) :
    (∀ w : Value, w.Tabular → w.table? d = some t → v = w) ∧
      ((∃ s, v = .ofText s) ↔ ∃ c ∈ t.toList.head?, c = '"' ∨ c = '\'') ∧
      (Text.lines t).length = v.lineCount :=
  ⟨fun _ hw h' => hv.eq_of_table? hw h h', hv.isText_iff h, hv.length_lines h⟩

/-- Mappings without entries, with one and with two, and a text with a line break in it. -/
theorem table_unambiguous_nested :
    let v : Value := .map [(.str "a", .map [(.str "b", .str "x\ny: 'z'")]), (.str "c", .map []),
      (.str "d", .map [(.str "e_1", .int (-3)), (.str "f", .null)])]
    let t := "a:   b: \"x\\ny: 'z'\"\nc: \nd:\n  e_1: -3\n  f: None"
    v.Tabular ∧ v.table? 0 = some t ∧ (∀ w : Value, w.Tabular → w.table? 0 = some t → v = w) ∧
      (Text.lines t).length = 5 := by
  intro v t
  have hv : v.Tabular := by
    refine .map ?_ ?_
    · simp only [List.forall_mem_cons]
      exact ⟨⟨"a", rfl, by decide⟩, ⟨"c", rfl, by decide⟩, ⟨"d", rfl, by decide⟩, List.forall_mem_nil _⟩
    · simp only [List.forall_mem_cons]
      have hempty : (Value.map []).Tabular := .map (List.forall_mem_nil _) (List.forall_mem_nil _)
      refine ⟨.map ?_ ?_, hempty, .map ?_ ?_, List.forall_mem_nil _⟩
      all_goals simp only [List.forall_mem_cons]
      · exact ⟨⟨"b", rfl, by decide⟩, List.forall_mem_nil _⟩
      · exact ⟨.text (.whole _), List.forall_mem_nil _⟩
      · exact ⟨⟨"e_1", rfl, by decide⟩, ⟨"f", rfl, by decide⟩, List.forall_mem_nil _⟩
      · exact ⟨.int _, .null, List.forall_mem_nil _⟩
  have ht : v.table? 0 = some t := by decide +kernel
  obtain ⟨hall, -, hlines⟩ := table_unambiguous hv ht
  exact ⟨hv, ht, hall, hlines⟩

end Value

end Stencil
