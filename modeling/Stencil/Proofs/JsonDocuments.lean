import Stencil.Proofs.Delivery
import Stencil.Proofs.EveryPart

/-!
# What is written as JSON is a JSON document

The grammar of JSON: words, numbers, texts between quotes, lists and objects, with space around all of
them. Whatever is written keeps to it, whether a reader would take it or not, except that numbers that
are not finite are words that the standard does not know. A value can be written unless an integer in it
has too many digits, or a key is a date or a tuple.

* `Json.IsDocument`: the documents, where the words that are values may be chosen;
* `Json.isNumber_text`, `Json.isText_quoteText`: numbers and texts keep to the grammar;
* `Json.isDocument_of_write`: and so do all values that can be written;
* `Json.exists_write_eq_ok_iff`: which these are.
-/

namespace Stencil

namespace Json

/-! ## The grammar -/

/-- Digits, at least one. -/
structure IsDigits (ds : List Char) : Prop where
  ne_nil : ds ≠ []
  isDigit : ∀ c ∈ ds, c.isDigit

/-- The digits of a number before the point. -/
inductive IsWhole : List Char → Prop
  | zero : IsWhole ['0']
  | digits {ds : List Char} : IsDigits ds → (∀ r, ds ≠ '0' :: r) → IsWhole ds

/-- The fraction of a number, if there is one. -/
inductive IsFraction : List Char → Prop
  | none : IsFraction []
  | digits {ds : List Char} : IsDigits ds → IsFraction ('.' :: ds)

/-- The exponent of a number, if there is one. -/
inductive IsExponent : List Char → Prop
  | none : IsExponent []
  | digits {e : Char} {sign ds : List Char} : e = 'e' ∨ e = 'E' → sign ∈ [[], ['+'], ['-']] →
      IsDigits ds → IsExponent (e :: (sign ++ ds))

/-- A number. -/
inductive IsNumber : List Char → Prop
  | parts {sign whole fraction exponent : List Char} : sign ∈ [[], ['-']] → IsWhole whole →
      IsFraction fraction → IsExponent exponent → IsNumber (sign ++ (whole ++ (fraction ++ exponent)))

/-- A digit in base sixteen. -/
def IsHexDigit (c : Char) : Prop := c.isDigit ∨ ('a' ≤ c.toLower ∧ c.toLower ≤ 'f')

/-- What may stand between quotes. -/
inductive IsQuotable : List Char → Prop
  | nil : IsQuotable []
  | plain {c : Char} {r : List Char} : 32 ≤ c.toNat → c ≠ '"' → c ≠ '\\' → IsQuotable r →
      IsQuotable (c :: r)
  | short {c : Char} {r : List Char} : (shortEscape? c).isSome → IsQuotable r →
      IsQuotable ('\\' :: c :: r)
  | unit {ds r : List Char} : ds.length = 4 → (∀ d ∈ ds, IsHexDigit d) → IsQuotable r →
      IsQuotable ('\\' :: 'u' :: (ds ++ r))

/-- A text between quotes. -/
inductive IsText : List Char → Prop
  | quotes {cs : List Char} : IsQuotable cs → IsText ('"' :: (cs ++ ['"']))

/-- Things with commas between them, at least one. -/
inductive IsRow (P : List Char → Prop) : List Char → Prop
  | last {cs : List Char} : P cs → IsRow P cs
  | comma {cs r : List Char} : P cs → IsRow P r → IsRow P (cs ++ ',' :: r)

/-- A name and a value with a colon between them, and space around the name. -/
inductive IsMember (P : List Char → Prop) : List Char → Prop
  | colon {before name after cs : List Char} : IsSpaces before → IsText name → IsSpaces after → P cs →
      IsMember P (before ++ (name ++ (after ++ ':' :: cs)))

/-- A JSON document in which some words are values. -/
inductive IsDocument (words : List String) : List Char → Prop
  | word {w : String} : w ∈ words → IsDocument words w.toList
  | number {cs : List Char} : IsNumber cs → IsDocument words cs
  | text {cs : List Char} : IsText cs → IsDocument words cs
  | spaced {before cs after : List Char} : IsSpaces before → IsDocument words cs → IsSpaces after →
      IsDocument words (before ++ (cs ++ after))
  | emptyList {gap : List Char} : IsSpaces gap → IsDocument words ('[' :: (gap ++ [']']))
  | list {cs : List Char} : IsRow (IsDocument words) cs → IsDocument words ('[' :: (cs ++ [']']))
  | emptyObject {gap : List Char} : IsSpaces gap → IsDocument words ('\x7b' :: (gap ++ ['\x7d']))
  | object {cs : List Char} : IsRow (IsMember (IsDocument words)) cs →
      IsDocument words ('\x7b' :: (cs ++ ['\x7d']))

/-- The words of the standard. -/
def standardWords : List String := ["null", "true", "false"]

/-- The words of the standard, and those for numbers that are not finite. -/
def extendedWords : List String := standardWords ++ ["NaN", "Infinity", "-Infinity"]

/-! ## Numbers -/

/-- A minus sign in front of a number gives a number. -/
theorem IsNumber.of_parts (negative : Bool) {whole fraction exponent : List Char} (hw : IsWhole whole)
    (hf : IsFraction fraction) (he : IsExponent exponent) :
    IsNumber (if negative then '-' :: (whole ++ (fraction ++ exponent))
      else whole ++ (fraction ++ exponent)) := by
  cases negative with
  | false => exact @IsNumber.parts [] _ _ _ (by simp) hw hf he
  | true => exact @IsNumber.parts ['-'] _ _ _ (by simp) hw hf he

theorem isDigits_natText (n : Nat) : IsDigits (Numeral.natText n) :=
  ⟨Nat.toDigits_ne_nil, fun _ hc => Numeral.isDigit_of_mem_natText hc⟩

/-- A natural number is written without a zero in front. -/
theorem isWhole_natText (n : Nat) : IsWhole (Numeral.natText n) := by
  rcases Nat.eq_zero_or_pos n with rfl | hpos
  · exact .zero
  · exact .digits (isDigits_natText n) (Double.isNumeral_natText (Nat.ne_of_gt hpos)).head

/-- An integer is written as a number without fraction and exponent. -/
theorem isNumber_intText (i : Int) : IsNumber (Numeral.intText i).toList := by
  rw [intText_toList]
  simpa only [decide_eq_true_eq, List.append_nil] using
    IsNumber.of_parts (decide (i < 0)) (isWhole_natText i.natAbs) .none .none

theorem isDigits_append {cs ds : List Char} (hc : ∀ c ∈ cs, c.isDigit) (hd : ∀ c ∈ ds, c.isDigit)
    (hne : cs ≠ [] ∨ ds ≠ []) : IsDigits (cs ++ ds) :=
  ⟨by simpa [or_iff_not_imp_left] using hne, List.forall_mem_append.2 ⟨hc, hd⟩⟩

theorem isDigit_of_mem_replicate {n : Nat} {c : Char} (h : c ∈ List.replicate n '0') : c.isDigit := by
  rw [List.eq_of_mem_replicate h]
  rfl

/-- A numeral without exponent has digits before the point and behind it. -/
theorem exists_positional {ds : List Char} (h : Double.IsNumeral ds) (place : Int) :
    ∃ whole fraction, Double.positional ds place = whole ++ '.' :: fraction ∧ IsWhole whole ∧
      IsDigits fraction := by
  unfold Double.positional
  dsimp only
  split
  -- All digits stand behind the point, with zeros in front of them.
  · exact ⟨['0'], List.replicate (-place).toNat '0' ++ ds, rfl, .zero,
      isDigits_append (fun _ => isDigit_of_mem_replicate) h.isDigit (.inr h.ne_nil)⟩
  split
  -- All digits stand before the point, with zeros behind them.
  · refine ⟨ds ++ List.replicate (place - ds.length).toNat '0', ['0'], rfl, .digits
      (isDigits_append h.isDigit (fun _ => isDigit_of_mem_replicate) (.inl h.ne_nil)) fun r hr => ?_,
      by simp, by simp⟩
    obtain ⟨d, ds, rfl⟩ := List.exists_cons_of_ne_nil h.ne_nil
    exact h.head ds (by rw [(List.cons.inj hr).1])
  -- The point stands between two digits.
  · next hpos hlen =>
    obtain ⟨n, hn⟩ : ∃ n : Nat, place.toNat = n + 1 := ⟨place.toNat - 1, by omega⟩
    refine ⟨ds.take place.toNat, ds.drop place.toNat, rfl, .digits ⟨?_, fun c hc =>
      h.isDigit c (List.mem_of_mem_take hc)⟩ fun r hr => ?_, ?_, fun c hc =>
        h.isDigit c (List.mem_of_mem_drop hc)⟩
    · simpa [hn] using h.ne_nil
    · obtain ⟨d, ds, rfl⟩ := List.exists_cons_of_ne_nil h.ne_nil
      rw [hn, List.take_succ_cons] at hr
      exact h.head ds (by rw [(List.cons.inj hr).1])
    · rw [ne_eq, List.drop_eq_nil_iff]
      omega

/-- A numeral with an exponent has one digit before the point, and a sign before the exponent. -/
theorem exists_withExponent {ds : List Char} (h : Double.IsNumeral ds) (place : Int) :
    ∃ whole fraction exponent, Double.withExponent floatStyle ds place =
      whole ++ (fraction ++ exponent) ∧ IsWhole whole ∧ IsFraction fraction ∧ IsExponent exponent := by
  have hexponent : IsExponent ('e' :: (if place - 1 < 0 then '-' else '+') ::
      (if (Nat.toDigits 10 (place - 1).natAbs).length < 2 then
        '0' :: Nat.toDigits 10 (place - 1).natAbs else Nat.toDigits 10 (place - 1).natAbs)) := by
    have hdigits : IsDigits (Nat.toDigits 10 (place - 1).natAbs) := isDigits_natText _
    have hsign : [if place - 1 < 0 then '-' else '+'] ∈ [[], ['+'], ['-']] := by split <;> simp
    generalize Nat.toDigits 10 (place - 1).natAbs = size at hdigits ⊢
    by_cases hshort : size.length < 2
    · rw [if_pos hshort]
      exact .digits (.inl rfl) hsign
        ⟨List.cons_ne_nil _ _, List.forall_mem_cons.2 ⟨rfl, hdigits.isDigit⟩⟩
    · rw [if_neg hshort]
      exact .digits (.inl rfl) hsign hdigits
  obtain ⟨d, r, rfl⟩ := List.exists_cons_of_ne_nil h.ne_nil
  have hd := List.forall_mem_cons.1 h.isDigit
  have hwhole : IsWhole [d] := .digits ⟨List.cons_ne_nil _ _, by simpa using hd.1⟩ fun r' hr =>
    h.head r (by rw [(List.cons.inj hr).1])
  cases r with
  | nil => exact ⟨[d], [], _, rfl, hwhole, .none, hexponent⟩
  | cons d' r =>
    exact ⟨[d], '.' :: d' :: r, _, rfl, hwhole, .digits ⟨List.cons_ne_nil _ _, hd.2⟩, hexponent⟩

/-- A finite number that has no more bits than it may have is written as a number. -/
theorem isNumber_text {negative : Bool} {m : Nat} {e : Int} (hm : m < twoPow 53) :
    IsNumber ((Double.finite negative m e).text floatStyle).toList := by
  rw [Double.text, String.toList_ofList]
  rcases Nat.eq_zero_or_pos m with rfl | hpos
  · rw [Double.shortest_zero]
    have hzero : IsDigits ['0'] := ⟨by simp, by simp⟩
    exact .of_parts negative .zero (.digits hzero) .none
  have h := Double.isNumeral_shortest hpos hm e
  generalize Double.shortest m e = p at h ⊢
  obtain ⟨ds, place⟩ := p
  dsimp only at h ⊢
  by_cases hplace : -4 < place ∧ place ≤ 16
  · rw [if_pos hplace]
    obtain ⟨whole, fraction, hbody, hwhole, hfraction⟩ := exists_positional h place
    have hnumber := IsNumber.of_parts negative hwhole (.digits hfraction) .none
    rwa [List.append_nil, ← hbody] at hnumber
  · rw [if_neg hplace]
    obtain ⟨whole, fraction, exponent, hbody, hwhole, hfraction, hexponent⟩ :=
      exists_withExponent h place
    have hnumber := IsNumber.of_parts negative hwhole hfraction hexponent
    rwa [← hbody] at hnumber

/-! ## Texts -/

theorem isHexDigit_digitChar {d : Nat} (h : d < 16) : IsHexDigit (Nat.digitChar d) := by
  have hall : ∀ d : Fin 16, IsHexDigit (Nat.digitChar d) := by
    unfold IsHexDigit
    decide
  exact hall ⟨d, h⟩

/-- The digits of a number in base sixteen are such digits. -/
theorem isHexDigit_of_mem_hexDigits {width n : Nat} {c : Char} (h : c ∈ Text.hexDigits width n) :
    IsHexDigit c := by
  induction width generalizing n with
  | zero => exact absurd h List.not_mem_nil
  | succ width ih =>
    rcases List.mem_append.1 h with h | h
    · exact ih h
    · rw [List.mem_singleton.1 h]
      exact isHexDigit_digitChar (Nat.mod_lt _ (by decide))

/-- The escape of a unit may stand between quotes. -/
theorem IsQuotable.unitEscape {r : List Char} (h : IsQuotable r) (unit : Nat) :
    IsQuotable (unitEscape unit ++ r) :=
  .unit (Text.length_hexDigits 4 unit) (fun _ => isHexDigit_of_mem_hexDigits) h

/-- However a character is written, it may stand between quotes: as it is, behind a backslash, or as
    one unit or two. -/
theorem IsQuotable.escapeChar {r : List Char} (h : IsQuotable r) (c : Char) :
    IsQuotable (escapeChar c ++ r) := by
  have hshort {c : Char} (hc : (shortEscape? c).isSome) : IsQuotable (['\\', c] ++ r) := .short hc h
  unfold Json.escapeChar
  split
  · exact hshort rfl
  split
  · exact hshort rfl
  split
  · exact hshort rfl
  split
  · exact hshort rfl
  split
  · exact hshort rfl
  split
  · exact hshort rfl
  split
  · exact hshort rfl
  split
  · next hquote hback _ _ _ _ _ hrange => exact .plain hrange.1 hquote hback h
  split
  · exact h.unitEscape _
  · rw [List.append_assoc]
    exact (h.unitEscape _).unitEscape _

theorem IsQuotable.escapeCode {r : List Char} (h : IsQuotable r) (p : CodePoint) :
    IsQuotable (escapeCode p ++ r) := by
  cases p with
  | char c => exact h.escapeChar c
  | surrogate i => exact h.unitEscape _

/-- Whatever stands between quotes, all of it is escaped where it has to be. -/
theorem isText_flatMap_escapeCode (ps : List CodePoint) :
    IsText ('"' :: (ps.flatMap escapeCode ++ ['"'])) := by
  refine .quotes ?_
  induction ps with
  | nil => exact .nil
  | cons p ps ih => exact ih.escapeCode p

theorem isText_quote (s : String) : IsText (quote s).toList := by
  have htext := isText_flatMap_escapeCode (s.toList.map .char)
  rw [List.flatMap_map] at htext
  rw [quote, String.toList_ofList]
  exact htext

theorem isText_quoteText (t : CodeText) : IsText (quoteText t).toList := by
  cases t with
  | whole s => exact isText_quote s
  | ragged t =>
    rw [quoteText, String.toList_ofList]
    exact isText_flatMap_escapeCode t.codes

/-! ## Values -/

end Json

/-- A number in double precision that is finite. -/
def Double.IsFinite : Double → Prop
  | .finite _ _ _ => True
  | _ => False

/-- A scalar that is no number in double precision, or a finite one. -/
def Scalar.IsFinite : Scalar → Prop
  | .float x => x.IsFinite
  | _ => True

theorem textOf_eq_ok_iff {o : Option String} {t : String} : textOf o = .ok t ↔ o = some t := by
  cases o <;> simp [textOf]

/-- A key that can be the name of a member: a text, a number, a truth value or null. -/
def Key.IsName : Key → Prop
  | .scalar (.date _ _) => False
  | .scalar _ => True
  | .tuple _ => False

namespace Json

variable {words : List String} {P : List Char → Prop} {l : Layout} {depth : Nat} {s : Scalar} {k : Key}
  {v : Value} {t : String}

theorem textOf_intText?_eq_ok_iff {i : Int} :
    (∃ t, textOf (Numeral.intText? i) = .ok t) ↔ i.natAbs < 10 ^ Numeral.maxDigits := by
  rw [← Nat.not_le, ← Numeral.intText?_eq_none_iff]
  cases Numeral.intText? i <;> simp [textOf]

/-- Only an integer with too many digits cannot be written. -/
theorem exists_scalar_eq_ok_iff : (∃ t, scalar s = .ok t) ↔ s.IsShort := by
  cases s with
  | int i => exact textOf_intText?_eq_ok_iff
  | _ => exact iff_of_true ⟨_, rfl⟩ trivial

/-- A key can be written if it can be a name and is no integer with too many digits. -/
theorem exists_keyText_eq_ok_iff : (∃ t, keyText k = .ok t) ↔ k.IsName ∧ k.Every Scalar.IsShort := by
  cases k with
  | tuple ks => exact iff_of_false nofun fun h => h.1
  | scalar s =>
    rw [Key.Every.scalar_iff]
    cases s with
    | str s => exact iff_of_true ⟨_, rfl⟩ ⟨trivial, trivial⟩
    | date d c => exact iff_of_false nofun fun h => h.1
    | int i =>
      refine Iff.trans ?_ ((exists_scalar_eq_ok_iff (s := .int i)).trans
        ⟨fun h => ⟨trivial, h⟩, And.right⟩)
      exact exists_map_eq_ok_iff
    | _ => exact iff_of_true ⟨_, rfl⟩ ⟨trivial, trivial⟩

theorem exists_items_eq_ok_iff {vs : List Value} : (∃ ts, write.items l depth vs = .ok ts) ↔
    ∀ v ∈ vs, ∃ t, write l depth v = .ok t := by
  induction vs with
  | nil => exact iff_of_true ⟨[], rfl⟩ (List.forall_mem_nil _)
  | cons v vs ih => rw [write.items, exists_bind_map_eq_ok_iff, ih, List.forall_mem_cons]

/-- The members of an object can be written if all names and all values can. -/
theorem exists_members_eq_ok_iff {es : Mapping} : (∃ ts, write.members l depth es = .ok ts) ↔
    ∀ e ∈ es, (∃ t, keyText e.1 = .ok t) ∧ ∃ t, write l depth e.2 = .ok t := by
  induction es with
  | nil => exact iff_of_true ⟨[], rfl⟩ (List.forall_mem_nil _)
  | cons e es ih =>
    obtain ⟨k, v⟩ := e
    rw [List.forall_mem_cons, ← ih, write.members]
    constructor
    · rintro ⟨ts, h⟩
      obtain ⟨key, hkey, h⟩ := exists_of_bind_eq_ok h
      obtain ⟨t, ht, h⟩ := exists_of_bind_eq_ok h
      obtain ⟨ts, hts, -⟩ := exists_of_bind_eq_ok h
      exact ⟨⟨⟨key, hkey⟩, t, ht⟩, ts, hts⟩
    · rintro ⟨⟨⟨key, hkey⟩, t, ht⟩, ts, hts⟩
      rw [hkey, ht, hts]
      exact ⟨_, rfl⟩

/-- A value can be written if no integer in it has too many digits, and no key is a date or a tuple. -/
theorem exists_write_eq_ok_iff : (∃ t, write l depth v = .ok t) ↔
    v.Every (fun k => k.IsName ∧ k.Every Scalar.IsShort) Scalar.IsShort := by
  induction v using Value.rec_on_parts generalizing depth with
  | scalar s => rw [Value.Every.scalar_iff, write, exists_scalar_eq_ok_iff]
  | list vs ih =>
    rw [Value.Every.list_iff, write, exists_map_eq_ok_iff, exists_items_eq_ok_iff]
    exact forall₂_congr fun v hv => ih v hv
  | tuple vs ih =>
    rw [Value.Every.tuple_iff, write, exists_map_eq_ok_iff, exists_items_eq_ok_iff]
    exact forall₂_congr fun v hv => ih v hv
  | map es ih =>
    rw [Value.Every.map_iff, write, exists_map_eq_ok_iff, exists_members_eq_ok_iff, ← forall₂_and]
    exact forall₂_congr fun e he => and_congr exists_keyText_eq_ok_iff (ih e he)

/-! ## Documents -/

/-- Items with commas between them, and space around all of them. -/
theorem IsRow.intercalate {items : List (List Char)} {gap before after : List Char} (hne : items ≠ [])
    (h : ∀ i ∈ items, ∀ a b, IsSpaces a → IsSpaces b → P (a ++ (i ++ b))) (hgap : IsSpaces gap)
    (hbefore : IsSpaces before) (hafter : IsSpaces after) :
    IsRow P (before ++ ((',' :: gap).intercalate items ++ after)) := by
  induction items generalizing before with
  | nil => exact absurd rfl hne
  | cons i items ih =>
    rw [List.forall_mem_cons] at h
    cases items with
    | nil =>
      rw [List.intercalate_singleton]
      exact .last (h.1 _ _ hbefore hafter)
    | cons j items =>
      have hrest := ih (List.cons_ne_nil _ _) h.2 hgap
      have hfirst := h.1 before [] hbefore nofun
      rw [List.append_nil] at hfirst
      rw [List.intercalate_cons_cons]
      have hrow := IsRow.comma hfirst hrest
      simpa only [List.append_assoc, List.cons_append] using hrow

/-- What is between two brackets keeps to the grammar if its items do. -/
theorem exists_enclose (opening closing : String) {o c : Char} (ho : opening.toList = [o])
    (hc : closing.toList = [c]) (hl : l.IsBlank) (depth : Nat) {items : List String}
    (h : ∀ i ∈ items, ∀ a b, IsSpaces a → IsSpaces b → P (a ++ (i.toList ++ b))) :
    (l.enclose depth opening closing items).toList = [o, c] ∨
      ∃ row, (l.enclose depth opening closing items).toList = o :: (row ++ [c]) ∧ IsRow P row := by
  by_cases hne : items = []
  · subst hne
    exact .inl (Layout.toList_enclose_nil ho hc depth)
  · obtain ⟨sp, hbetween, hsp⟩ := Layout.exists_between hl depth
    refine .inr ⟨(l.afterOpen depth).toList ++ ((',' :: sp).intercalate (items.map String.toList) ++
      (l.beforeClose depth).toList), ?_, ?_⟩
    · rw [Layout.toList_enclose ho hc hne, hbetween]
      simp only [List.append_assoc]
    · refine IsRow.intercalate (by simpa using hne) (fun i hi => ?_) hsp
        (Layout.isSpaces_afterOpen hl depth) (Layout.isSpaces_beforeClose hl depth)
      obtain ⟨i, hmem, rfl⟩ := List.mem_map.1 hi
      exact h i hmem

/-- A scalar that can be written is a word, a number or a text. -/
theorem isDocument_scalar (hwords : ∀ w ∈ standardWords, w ∈ words) (hproper : s.IsProper)
    (hfinite : s.IsFinite ∨ ∀ w ∈ extendedWords, w ∈ words) (h : scalar s = .ok t) :
    IsDocument words t.toList := by
  cases s with
  | null =>
    cases h
    exact .word (hwords _ (by decide))
  | bool b =>
    cases h
    cases b <;> exact .word (hwords _ (by decide))
  | int i =>
    rw [Numeral.eq_intText (textOf_eq_ok_iff.1 h)]
    exact .number (isNumber_intText i)
  | str s =>
    cases h
    exact .text (isText_quote s)
  | ragged r =>
    cases h
    exact .text (isText_quoteText (.ragged r))
  | date d c =>
    cases h
    exact .text (isText_quote _)
  | float x =>
    cases h
    cases x with
    | finite negative m e => exact .number (isNumber_text hproper)
    | nan => exact .word ((hfinite.resolve_left id) _ (by decide))
    | infinite negative =>
      cases negative <;> exact .word ((hfinite.resolve_left id) _ (by decide))

theorem isDocument_of_mem_items {vs : List Value} {ts : List String}
    (hvs : ∀ v ∈ vs, ∀ t, write l depth v = .ok t → IsDocument words t.toList)
    (h : write.items l depth vs = .ok ts) : ∀ t ∈ ts, IsDocument words t.toList := by
  induction vs generalizing ts with
  | nil =>
    cases h
    exact List.forall_mem_nil _
  | cons v vs ih =>
    rw [List.forall_mem_cons] at hvs
    obtain ⟨t, ht, h⟩ := exists_of_bind_eq_ok h
    obtain ⟨ts, hts, h⟩ := exists_of_bind_eq_ok h
    cases h
    exact List.forall_mem_cons.2 ⟨hvs.1 t ht, ih hvs.2 hts⟩

/-- A member is a name and a value, and there may be space around it. -/
theorem isMember_of_mem_members {es : Mapping} {ts : List String}
    (hes : ∀ e ∈ es, ∀ t, write l depth e.2 = .ok t → IsDocument words t.toList)
    (h : write.members l depth es = .ok ts) : ∀ t ∈ ts, ∀ a b, IsSpaces a → IsSpaces b →
      IsMember (IsDocument words) (a ++ (t.toList ++ b)) := by
  induction es generalizing ts with
  | nil =>
    cases h
    exact List.forall_mem_nil _
  | cons e es ih =>
    obtain ⟨k, v⟩ := e
    rw [List.forall_mem_cons] at hes
    obtain ⟨key, -, h⟩ := exists_of_bind_eq_ok h
    obtain ⟨t, ht, h⟩ := exists_of_bind_eq_ok h
    obtain ⟨ts, hts, h⟩ := exists_of_bind_eq_ok h
    cases h
    refine List.forall_mem_cons.2 ⟨fun a b ha hb => ?_, ih hes.2 hts⟩
    have hspace : IsSpaces [' '] := by
      intro c hc
      rw [List.mem_singleton.1 hc]
      rfl
    have hmember := IsMember.colon ha (isText_quoteText key) isSpaces_nil
      (IsDocument.spaced hspace (hes.1 t ht) hb)
    rw [String.toList_append, String.toList_append, List.append_assoc, List.append_assoc]
    exact hmember

/-- What is written is a document. -/
theorem isDocument_of_write (hl : l.IsBlank) (hwords : ∀ w ∈ standardWords, w ∈ words)
    (hv : v.Every (fun _ => True) fun s =>
      s.IsProper ∧ (s.IsFinite ∨ ∀ w ∈ extendedWords, w ∈ words))
    (h : write l depth v = .ok t) : IsDocument words t.toList := by
  -- Lists and tuples are written alike.
  have hlist {ts : List String} (hts : ∀ t ∈ ts, IsDocument words t.toList) (depth : Nat) :
      IsDocument words (l.enclose depth "[" "]" ts).toList := by
    rcases exists_enclose "[" "]" rfl rfl hl depth fun t ht a b ha hb =>
      IsDocument.spaced ha (hts t ht) hb with henclose | ⟨row, henclose, hrow⟩
    · rw [henclose]
      exact .emptyList isSpaces_nil
    · rw [henclose]
      exact .list hrow
  induction v using Value.rec_on_parts generalizing depth t with
  | scalar s =>
    obtain ⟨hproper, hfinite⟩ := Value.Every.scalar_iff.1 hv
    exact isDocument_scalar hwords hproper hfinite h
  | list vs ih =>
    obtain ⟨ts, hts, rfl⟩ := exists_of_map_eq_ok h
    exact hlist (isDocument_of_mem_items (fun v hmem t =>
      ih v hmem (Value.Every.list_iff.1 hv v hmem)) hts) depth
  | tuple vs ih =>
    obtain ⟨ts, hts, rfl⟩ := exists_of_map_eq_ok h
    exact hlist (isDocument_of_mem_items (fun v hmem t =>
      ih v hmem (Value.Every.tuple_iff.1 hv v hmem)) hts) depth
  | map es ih =>
    obtain ⟨ts, hts, rfl⟩ := exists_of_map_eq_ok h
    have hmembers := isMember_of_mem_members (fun e hmem t =>
      ih e hmem ((Value.Every.map_iff.1 hv).2 e hmem)) hts
    rcases exists_enclose "\x7b" "\x7d" rfl rfl hl depth hmembers with
      henclose | ⟨row, henclose, hrow⟩
    · rw [henclose]
      exact .emptyObject isSpaces_nil
    · rw [henclose]
      exact .object hrow

end Json

end Stencil
