import Mathlib.Algebra.Ring.Nat
import Mathlib.Data.List.Forall2
import Mathlib.Data.List.TakeDrop
import Mathlib.Data.List.TakeWhile
import Stencil.Json.Reader
import Stencil.Json.Writer

/-!
# JSON texts are read back

A value that is made of texts, integers, truth values and nulls, in lists and in mappings with texts
as keys, has a JSON text, and that text is read as the value that it was written for, whatever the
layout is. Characters beyond the basic plane come back from the pairs of surrogates that they are
escaped by.

* `Json.Plain`: the values in question, nested so many levels deep at most;
* `Json.readString?_flatMap_escapeChar`, `Json.readNumber?_intText`: texts and integers are read back;
* `Json.exists_reads`: so is a plain value in front of whatever may follow it;
* `Json.exists_text`: so is a whole text.
-/

namespace Stencil

/-! ## Mappings -/

namespace Mapping

theorem put_of_forall_not_same {m : Mapping} {k : Key} (h : ∀ e ∈ m, ¬e.1.same k) (v : Value) :
    m.put k v = m ++ [(k, v)] := by
  induction m with
  | nil => rfl
  | cons e m ih =>
    rw [List.forall_mem_cons] at h
    rw [put, if_neg h.1, ih h.2, List.cons_append]

/-- Pairs under different keys are entered as they are. -/
theorem putAll_of_pairwise {m : Mapping} {pairs : List (Key × Value)}
    (h : (m ++ pairs).Pairwise fun e f => ¬e.1.same f.1) : m.putAll pairs = m ++ pairs := by
  induction pairs generalizing m with
  | nil => rw [putAll, List.foldl_nil, List.append_nil]
  | cons e pairs ih =>
    have hnew : ∀ f ∈ m, ¬f.1.same e.1 := fun f hf =>
      (List.pairwise_append.1 h).2.2 f hf e List.mem_cons_self
    rw [List.append_cons] at h ⊢
    rw [← ih h, putAll, List.foldl_cons, put_of_forall_not_same hnew, putAll]

theorem ofPairs_of_pairwise {pairs : List (Key × Value)}
    (h : pairs.Pairwise fun e f => ¬e.1.same f.1) : ofPairs pairs = pairs :=
  putAll_of_pairwise (m := []) h

end Mapping

/-! ## Numbers -/

namespace Numeral

/-- Items of one kind end where another one comes, or nothing. -/
theorem span_append {α : Type} {p : α → Bool} {ds r : List α} (h : ∀ c ∈ ds, p c)
    (hr : ∀ c ∈ r.head?, p c = false) : (ds ++ r).span p = (ds, r) := by
  rw [List.span_eq_takeWhile_dropWhile, List.takeWhile_append_of_pos h, List.dropWhile_append_of_pos h]
  cases r with
  | nil => rw [List.takeWhile_nil, List.dropWhile_nil, List.append_nil]
  | cons c r =>
    have hc : ¬p c := Bool.eq_false_iff.1 (hr c rfl)
    rw [List.takeWhile_cons_of_neg hc, List.dropWhile_cons_of_neg hc, List.append_nil]

/-- An ASCII digit has its usual value. -/
theorem digitValue?_of_isDigit {c : Char} (h : c.isDigit) :
    Text.digitValue? c = some (c.toNat - '0'.toNat) := by
  obtain ⟨hlow, hhigh⟩ := Char.isDigit_iff_toNat.1 h
  have hd := Text.digitValue?_ascii ⟨c.toNat - '0'.toNat, by
    rw [show '9'.toNat = 57 from rfl] at hhigh
    rw [show '0'.toNat = 48 from rfl] at hlow ⊢
    omega⟩
  rwa [show 48 + (c.toNat - '0'.toNat) = c.toNat from Nat.add_sub_cancel' hlow,
    Char.ofNat_toNat] at hd

theorem readDigits_of_isDigit {cs : List Char} (h : ∀ c ∈ cs, c.isDigit) (n : Nat) :
    readDigits n cs = some (Nat.ofDigitChars 10 cs n) := by
  induction cs generalizing n with
  | nil => rfl
  | cons c cs ih =>
    rw [List.forall_mem_cons] at h
    rw [readDigits, digitValue?_of_isDigit h.1]
    exact ih h.2 _

theorem isDigit_of_mem_natText {n : Nat} {c : Char} (h : c ∈ natText n) : c.isDigit :=
  Nat.isDigit_of_mem_toDigits (by decide) (by decide) h

/-- A number is read back from its digits. -/
theorem digits?_natText (n : Nat) : digits? (natText n) = some n := by
  have hne : natText n ≠ [] := Nat.toDigits_ne_nil
  rw [digits?, if_neg (by simpa using hne),
    readDigits_of_isDigit fun c hc => isDigit_of_mem_natText hc, natText,
    Nat.ofDigitChars_ten_toDigits]

/-- The digits of a number start with a zero only if they are nothing but a zero. -/
theorem natText_eq_zero_cons {n : Nat} {r : List Char} (h : natText n = '0' :: r) : r = [] := by
  induction n using Nat.strongRecOn generalizing r with
  | ind n ih =>
    rw [natText, Nat.toDigits_eq_if (by decide)] at h
    split at h
    · exact (List.cons.inj h).2.symm
    · next hlarge =>
      -- All but the last digit are those of a smaller number, which is not zero.
      cases hq : Nat.toDigits 10 (n / 10) with
      | nil => exact absurd hq Nat.toDigits_ne_nil
      | cons d ds =>
        rw [hq, List.cons_append] at h
        obtain ⟨rfl, -⟩ := List.cons.inj h
        obtain rfl := ih (n / 10) (by omega) hq
        have hzero := digits?_natText (n / 10)
        rw [natText, hq] at hzero
        have hz : 0 = n / 10 := Option.some.inj (hzero ▸ (by decide : digits? ['0'] = some 0)).symm
        omega

end Numeral

namespace Json

/-! ## Texts -/

/-- A digit in base sixteen is read back. -/
theorem inBase?_step_digitChar (n : Nat) {d : Nat} (h : d < 16) :
    Numeral.inBase?.step 16 n (Nat.digitChar d) = some (16 * n + d) := by
  have hall : ∀ d : Fin 16, let c := Nat.digitChar d
      (if c.isDigit then c.toNat - 48 else c.toLower.toNat - 87) = d.val ∧
        (c.isDigit || ('a' ≤ c.toLower && c.toLower ≤ 'f')) := by decide
  obtain ⟨hvalue, hdigit⟩ := hall ⟨d, h⟩
  rw [Numeral.inBase?.step]
  simp only at hvalue hdigit ⊢
  rw [hvalue, hdigit, Bool.true_and, if_pos (decide_eq_true h)]

/-- A UTF-16 unit is read back from its four digits. -/
theorem readUnit?_hexDigits {unit : Nat} (h : unit < 0x10000) (r : List Char) :
    readUnit? (Text.hexDigits 4 unit ++ r) = some (unit, r) := by
  have hlt (n : Nat) : n % 16 < 16 := Nat.mod_lt n (by decide)
  have hread : Numeral.inBase? 16 (Text.hexDigits 4 unit) = some unit := by
    simp only [Text.hexDigits, List.nil_append, List.cons_append, Numeral.inBase?, List.isEmpty_cons,
      Bool.false_eq_true, if_false, List.foldlM_cons, List.foldlM_nil, Option.bind_eq_bind,
      inBase?_step_digitChar _ (hlt _), Option.bind_some, Option.pure_def, Option.some_inj]
    omega
  simp only [Text.hexDigits, List.nil_append, List.cons_append] at hread ⊢
  rw [readUnit?, hread]
  rfl

theorem toNat_lt (c : Char) : c.toNat < 0x110000 :=
  c.valid.elim (fun h => Nat.lt_trans h (by decide)) And.right

/-- An escaped unit is read as a code point, together with what follows if it has a partner. -/
theorem readString?_unitEscape {unit : Nat} (h : unit < 0x10000) {p : CodePoint} {r r' : List Char}
    (hcode : unitCode unit r = (p, r')) (fuel : Nat) :
    readString? (fuel + 1) (unitEscape unit ++ r) =
      (readString? fuel r').map fun q => (p :: q.1, q.2) := by
  rw [unitEscape, List.cons_append, List.cons_append, readString?, readUnit?_hexDigits h,
    Option.bind_some]
  dsimp only
  rw [hcode]

/-- The unit of a character of the basic plane is no surrogate. -/
theorem unitCode_char {c : Char} (r : List Char) : unitCode c.toNat r = (.char c, r) := by
  have hvalid : c.toNat < 0xD800 ∨ 0xDFFF < c.toNat := c.valid.imp id And.left
  rw [unitCode, if_neg (by omega)]
  exact congrArg (·, r) (CodePoint.ofNat_toNat (.char c))

/-- Beyond the basic plane, two units make up a character. -/
theorem unitCode_of_le {c : Char} (h : 0x10000 ≤ c.toNat) (r : List Char) :
    unitCode (0xD800 + (c.toNat - 0x10000) / 1024)
      (unitEscape (0xDC00 + (c.toNat - 0x10000) % 1024) ++ r) = (.char c, r) := by
  have hmax := toNat_lt c
  have hsum : 0x10000 + (0xD800 + (c.toNat - 0x10000) / 1024 - 0xD800) * 1024 +
      (0xDC00 + (c.toNat - 0x10000) % 1024 - 0xDC00) = c.toNat := by omega
  have hpair : readPair? (0xD800 + (c.toNat - 0x10000) / 1024)
      (unitEscape (0xDC00 + (c.toNat - 0x10000) % 1024) ++ r) = some (c, r) := by
    rw [unitEscape, List.cons_append, List.cons_append, readPair?, readUnit?_hexDigits (by omega),
      Option.bind_some, if_pos (by omega), hsum, Char.ofNat_toNat]
  rw [unitCode, if_pos (by omega), hpair]

/-- A character is read back from its escape. -/
theorem readString?_escapeChar (c : Char) (fuel : Nat) (r : List Char) :
    readString? (fuel + 1) (escapeChar c ++ r) =
      (readString? fuel r).map fun q => (.char c :: q.1, q.2) := by
  unfold escapeChar
  split
  · next h => subst h; rfl
  split
  · next h => subst h; rfl
  split
  · next h => subst h; rfl
  split
  · next h => subst h; rfl
  split
  · next h => subst h; rfl
  split
  · next h =>
    obtain rfl : c = Char.ofNat 8 := by rw [← h, Char.ofNat_toNat]
    rfl
  split
  · next h =>
    obtain rfl : c = Char.ofNat 12 := by rw [← h, Char.ofNat_toNat]
    rfl
  split
  · next hquote hslash _ _ _ _ _ hplain =>
    rw [List.singleton_append, readString?, if_neg hquote, if_neg]
    · rintro (h | h)
      · omega
      · exact hslash h
    · exact fun _ h => absurd h hslash
    · exact fun _ _ h => absurd h hslash
  split
  · next h => exact readString?_unitEscape h (unitCode_char r) fuel
  · next h =>
    have hmax := toNat_lt c
    rw [List.append_assoc]
    exact readString?_unitEscape (by omega) (unitCode_of_le (Nat.not_lt.1 h) r) fuel

/-- A text is read back up to its closing quote. -/
theorem readString?_flatMap_escapeChar (cs : List Char) {fuel : Nat} (h : cs.length < fuel)
    (r : List Char) :
    readString? fuel (cs.flatMap escapeChar ++ '"' :: r) = some (cs.map .char, r) := by
  induction cs generalizing fuel with
  | nil =>
    obtain ⟨fuel, rfl⟩ := Nat.exists_eq_add_of_lt h
    rfl
  | cons c cs ih =>
    cases fuel with
    | zero => exact absurd h (Nat.not_lt_zero _)
    | succ fuel =>
      rw [List.flatMap_cons, List.append_assoc, readString?_escapeChar,
        ih (Nat.lt_of_succ_lt_succ h)]
      rfl

theorem length_le_flatMap_escapeChar (cs : List Char) :
    cs.length ≤ (cs.flatMap escapeChar).length := by
  have hpos (c : Char) : 1 ≤ (escapeChar c).length := by
    unfold escapeChar
    repeat' split
    all_goals simp [unitEscape]
  induction cs with
  | nil => exact Nat.le_refl _
  | cons c cs ih =>
    rw [List.flatMap_cons, List.length_append, List.length_cons, Nat.add_comm]
    exact Nat.add_le_add (hpos c) ih

/-! ## Integers -/

/-- What may follow a value: nothing, space, or a mark that goes on or closes. -/
def Ends (rest : List Char) : Prop := ∀ c ∈ rest.head?, isSpace c ∨ c ∈ [',', ']', '\x7d']

theorem Ends.not_isDigit {c : Char} {rest : List Char} (h : Ends (c :: rest)) :
    ¬c.isDigit ∧ c ≠ '.' ∧ c ≠ 'e' ∧ c ≠ 'E' := by
  rcases h c rfl with hs | hm
  · simp only [isSpace, Bool.or_eq_true, beq_iff_eq] at hs
    rcases hs with ((rfl | rfl) | rfl) | rfl <;> decide
  · simp only [List.mem_cons, List.not_mem_nil, or_false] at hm
    rcases hm with rfl | rfl | rfl <;> decide

theorem spanDigits_append {ds rest : List Char} (h : ∀ c ∈ ds, c.isDigit) (hr : Ends rest) :
    spanDigits (ds ++ rest) = (ds, rest) := by
  refine Numeral.span_append h fun c hc => ?_
  obtain ⟨r, rfl⟩ := List.head?_eq_some_iff.1 hc
  exact Bool.eq_false_iff.2 hr.not_isDigit.1

/-- The digits of a number are read as the part before the point. -/
theorem readWhole?_natText (n : Nat) {rest : List Char} (hr : Ends rest) :
    readWhole? (Numeral.natText n ++ rest) = some (Numeral.natText n, rest) := by
  have hspan := spanDigits_append (fun c => Numeral.isDigit_of_mem_natText (n := n)) hr
  cases h : Numeral.natText n with
  | nil => exact absurd h Nat.toDigits_ne_nil
  | cons d ds =>
    rw [h] at hspan
    by_cases hd : d = '0'
    · subst hd
      obtain rfl := Numeral.natText_eq_zero_cons h
      rfl
    · rw [readWhole?, hspan]
      · exact fun r h => hd (List.cons.inj h).1

theorem readFraction_of_ends {rest : List Char} (hr : Ends rest) : readFraction rest = ([], rest) := by
  cases rest with
  | nil => rfl
  | cons c rest =>
    rw [readFraction]
    rintro r h
    exact hr.not_isDigit.2.1 (List.cons.inj h).1

theorem readExponent_of_ends {rest : List Char} (hr : Ends rest) : readExponent rest = (none, rest) := by
  cases rest with
  | nil => rfl
  | cons c rest =>
    obtain ⟨-, -, he, hE⟩ := hr.not_isDigit
    rw [readExponent, if_neg (by simp [he, hE])]

theorem readUnsigned?_natText {n : Nat} (h : n < 10 ^ Numeral.maxDigits) {rest : List Char}
    (hr : Ends rest) (negative : Bool) : readUnsigned? negative (Numeral.natText n ++ rest) =
      some (.int (if negative then -(n : Int) else n), rest) := by
  have hlen : (Numeral.natText n).length ≤ Numeral.maxDigits :=
    (Nat.length_toDigits_le_iff (by decide) (by decide)).2 h
  rw [readUnsigned?, readWhole?_natText n hr, Option.bind_some]
  simp only [readFraction_of_ends hr, readExponent_of_ends hr]
  simp [Numeral.digits?_natText, Nat.not_lt.2 hlen]

theorem intText_toList (i : Int) : (Numeral.intText i).toList =
    if i < 0 then '-' :: Numeral.natText i.natAbs else Numeral.natText i.natAbs :=
  String.toList_ofList

/-- An integer is read back from its text. -/
theorem readNumber?_intText {i : Int} (h : i.natAbs < 10 ^ Numeral.maxDigits) {rest : List Char}
    (hr : Ends rest) : readNumber? ((Numeral.intText i).toList ++ rest) = some (.int i, rest) := by
  rw [intText_toList]
  split
  · next hi =>
    rw [List.cons_append, readNumber?, readUnsigned?_natText h hr, if_pos rfl,
      Int.ofNat_natAbs_of_nonpos (Int.le_of_lt hi), Int.neg_neg]
  · next hi =>
    rw [readNumber?, readUnsigned?_natText h hr, if_neg Bool.false_ne_true,
      Int.natAbs_of_nonneg (Int.not_lt.1 hi)]
    -- Digits do not start with a sign.
    intro r hsign
    cases hd : Numeral.natText i.natAbs with
    | nil => exact Nat.toDigits_ne_nil hd
    | cons d ds =>
      have hdigit := Numeral.isDigit_of_mem_natText (n := i.natAbs) (hd ▸ List.mem_cons_self)
      rw [hd] at hsign
      rw [(List.cons.inj hsign).1] at hdigit
      exact absurd hdigit (by decide)

/-! ## Layouts -/

/-- Nothing but space. -/
def IsSpaces (cs : List Char) : Prop := ∀ c ∈ cs, isSpace c

theorem IsSpaces.append {cs ds : List Char} (h : IsSpaces cs) (h' : IsSpaces ds) :
    IsSpaces (cs ++ ds) :=
  List.forall_mem_append.2 ⟨h, h'⟩

/-- Space in front of a text is skipped. -/
theorem skipSpace_append {cs : List Char} (h : IsSpaces cs) {c : Char} (hc : ¬isSpace c)
    (r : List Char) : skipSpace (cs ++ c :: r) = c :: r := by
  rw [skipSpace, List.dropWhile_append_of_pos h, List.dropWhile_cons, if_neg hc]

theorem isSpaces_nil : IsSpaces [] := nofun

theorem isSpaces_lineBreak : IsSpaces "\n".toList := by
  have hline : "\n".toList = ['\n'] := String.toList_ofList
  rw [hline]
  exact List.forall_mem_singleton.2 rfl

namespace Layout

/-- A layout sets lines in by nothing but space. -/
def IsBlank : Layout → Prop
  | .compact => True
  | .indented unit => IsSpaces unit.toList

variable {l : Layout}

theorem isBlank_twoBlanks : (indented "  ").IsBlank := by
  have hunit : "  ".toList = [' ', ' '] := String.toList_ofList
  change IsSpaces "  ".toList
  rw [hunit]
  exact List.forall_mem_cons.2 ⟨rfl, List.forall_mem_singleton.2 rfl⟩

theorem isSpaces_newLine {unit : String} (h : IsSpaces unit.toList) (depth : Nat) :
    IsSpaces (newLine unit depth).toList := by
  rw [newLine, String.toList_append, String.toList_join]
  refine IsSpaces.append (fun c hc => ?_) fun c hc => ?_
  · obtain rfl := List.mem_singleton.1 hc
    rfl
  · obtain ⟨s, hs, hc⟩ := List.mem_flatMap.1 hc
    exact h c (List.eq_of_mem_replicate hs ▸ hc)

theorem isSpaces_afterOpen (h : l.IsBlank) (depth : Nat) : IsSpaces (l.afterOpen depth).toList := by
  cases l with
  | compact => exact fun c hc => absurd hc List.not_mem_nil
  | indented unit => exact isSpaces_newLine h _

theorem isSpaces_beforeClose (h : l.IsBlank) (depth : Nat) :
    IsSpaces (l.beforeClose depth).toList := by
  cases l with
  | compact => exact fun c hc => absurd hc List.not_mem_nil
  | indented unit => exact isSpaces_newLine h _

/-- Between two items there is a comma, and space. -/
theorem exists_between (h : l.IsBlank) (depth : Nat) :
    ∃ sp, (l.between depth).toList = ',' :: sp ∧ IsSpaces sp := by
  cases l with
  | compact =>
    refine ⟨[' '], String.toList_ofList, fun c hc => ?_⟩
    obtain rfl := List.mem_singleton.1 hc
    rfl
  | indented unit =>
    exact ⟨(newLine unit (depth + 1)).toList, String.toList_append, isSpaces_newLine h _⟩

theorem toList_enclose {opening closing : String} {o c : Char} (ho : opening.toList = [o])
    (hc : closing.toList = [c]) {items : List String} (h : items ≠ []) (depth : Nat) :
    (l.enclose depth opening closing items).toList =
      o :: ((l.afterOpen depth).toList ++
        ((l.between depth).toList.intercalate (items.map String.toList) ++
          ((l.beforeClose depth).toList ++ [c]))) := by
  rw [enclose, if_neg (by simpa using h)]
  simp only [String.toList_append, String.toList_intercalate, List.append_assoc, ho, hc]
  rfl

theorem toList_enclose_nil {opening closing : String} {o c : Char} (ho : opening.toList = [o])
    (hc : closing.toList = [c]) (depth : Nat) :
    (l.enclose depth opening closing []).toList = [o, c] := by
  rw [enclose, if_pos List.isEmpty_nil, String.toList_append, ho, hc]
  rfl

end Layout

/-! ## Values -/

/-- A value that is made of nulls, truth values, integers that can be written, texts, lists, and
    mappings whose keys are different texts, and that is nested `n` levels deep at most. -/
inductive Plain : Nat → Value → Prop
  | null {n : Nat} : Plain n .null
  | bool {n : Nat} (b : Bool) : Plain n (.bool b)
  | int {n : Nat} {i : Int} : i.natAbs < 10 ^ Numeral.maxDigits → Plain n (.int i)
  | str {n : Nat} (s : String) : Plain n (.str s)
  | list {n : Nat} {vs : List Value} : (∀ v ∈ vs, Plain n v) → Plain (n + 1) (.list vs)
  | map {n : Nat} {es : Mapping} : (∀ e ∈ es, ∃ s, e.1 = .str s) →
      es.Pairwise (fun e f => ¬e.1.same f.1) → (∀ e ∈ es, Plain n e.2) → Plain (n + 1) (.map es)

/-- A text that is read as a value nested `n` levels deep at most, in front of all that may follow. -/
structure Reads (n : Nat) (t : List Char) (v : Value) : Prop where
  starts : ∃ c r, t = c :: r ∧ ¬isSpace c ∧ c ≠ ']'
  reads {fuel : Nat} {rest : List Char} : t.length ≤ fuel → Ends rest →
    readValue n fuel (t ++ rest) = .ok (v, rest)

/-- A text that is read as a scalar starts with no bracket. -/
theorem Reads.of_readScalar? {n : Nat} {c : Char} {t : List Char} {v : Value} (hspace : ¬isSpace c)
    (hc : c ∉ ['[', ']', '\x7b'])
    (h : ∀ rest, Ends rest → readScalar? (c :: t ++ rest) = some (v, rest)) :
    Reads n (c :: t) v := by
  simp only [List.mem_cons, List.not_mem_nil, or_false, not_or] at hc
  refine ⟨⟨c, t, rfl, hspace, hc.2.1⟩, fun {fuel rest} hfuel hrest => ?_⟩
  cases fuel with
  | zero => exact absurd hfuel (Nat.not_succ_le_zero _)
  | succ fuel =>
    rw [readValue, h rest hrest]
    · exact fun r hr => hc.1 (List.cons.inj hr).1
    · exact fun r hr => hc.2.2 (List.cons.inj hr).1

theorem reads_quote (n : Nat) (s : String) : Reads n (quote s).toList (.str s) := by
  rw [quote, String.toList_ofList, quoteChars, List.cons_append]
  refine .of_readScalar? (by decide) (by decide) fun rest _ => ?_
  rw [List.cons_append, List.append_assoc, readScalar?]
  have hlen := length_le_flatMap_escapeChar s.toList
  have hfuel : s.toList.length <
      ('"' :: (s.toList.flatMap escapeChar ++ (['"'] ++ rest))).length := by
    simp only [List.length_cons, List.length_append]
    omega
  have hread := readString?_flatMap_escapeChar s.toList hfuel rest
  rw [List.singleton_append] at hread ⊢
  rw [hread, Option.map_some, CodeText.ofCodes_toList]
  rfl

theorem readWord?_of_isDigit {c : Char} (h : c.isDigit) (r : List Char) :
    readWord? (c :: r) = none ∧ readWord? ('-' :: c :: r) = none := by
  have hne {d : Char} (hd : ¬d.isDigit) : ¬d = c := by
    rintro rfl
    exact hd h
  constructor
  · simp [readWord?, words, hne]
  · simp [readWord?, words, hne]

theorem reads_intText (n : Nat) {i : Int} (h : i.natAbs < 10 ^ Numeral.maxDigits) :
    Reads n (Numeral.intText i).toList (.int i) := by
  have hread (rest : List Char) (hr : Ends rest) := readNumber?_intText h hr
  rw [intText_toList] at hread ⊢
  cases hd : Numeral.natText i.natAbs with
  | nil => exact absurd hd Nat.toDigits_ne_nil
  | cons d ds =>
    have hdigit := Numeral.isDigit_of_mem_natText (n := i.natAbs) (hd ▸ List.mem_cons_self)
    have hne {c : Char} (hc : ¬c.isDigit) : d ≠ c := fun he => hc (he ▸ hdigit)
    rw [hd] at hread
    split at hread
    · next hi =>
      rw [if_pos hi]
      refine .of_readScalar? (by decide) (by decide) fun rest hr => ?_
      rw [List.cons_append, List.cons_append, readScalar?, (readWord?_of_isDigit hdigit _).2]
      · exact hread rest hr
      · exact fun r hr => absurd (List.cons.inj hr).1 (by decide)
    · next hi =>
      rw [if_neg hi]
      refine .of_readScalar? ?_ ?_ fun rest hr => ?_
      · simp [isSpace, hne]
      · simp [hne]
      · rw [List.cons_append, readScalar?, (readWord?_of_isDigit hdigit _).1]
        · exact hread rest hr
        · exact fun r hr => hne (by decide) (List.cons.inj hr).1

/-! ## Rows -/

theorem ends_of_mem {c : Char} (h : c ∈ [',', ']', '\x7d']) (rest : List Char) :
    Ends (c :: rest) := fun _ hd => Option.some.inj hd ▸ .inr h

/-- Space may follow a value, and a closing bracket behind it. -/
theorem ends_append {close : List Char} (hclose : IsSpaces close) {c : Char}
    (h : c ∈ [',', ']', '\x7d']) (rest : List Char) : Ends (close ++ c :: rest) := by
  cases close with
  | nil => exact ends_of_mem h rest
  | cons d close => exact fun _ hd => .inl (Option.some.inj hd ▸ hclose d List.mem_cons_self)

/-- In front of a row of texts space is skipped. -/
theorem skipSpace_intercalate {sp t : List Char} (hsp : IsSpaces sp)
    (ht : ∃ c r, t = c :: r ∧ ¬isSpace c) (sep : List Char) (ts : List (List Char)) (r : List Char) :
    skipSpace (sp ++ (sep.intercalate (t :: ts) ++ r)) = sep.intercalate (t :: ts) ++ r := by
  obtain ⟨c, t, rfl, hc⟩ := ht
  cases ts with
  | nil =>
    rw [List.intercalate_singleton]
    exact skipSpace_append hsp hc _
  | cons t' ts =>
    rw [List.intercalate_cons_cons]
    exact skipSpace_append hsp hc _

/-- The text of an entry: its name, a colon and the text of its value. -/
inductive ReadsEntry (n : Nat) : List Char → Key × Value → Prop
  | mk (s : String) {t : List Char} {v : Value} (h : Reads n t v) :
      ReadsEntry n (quoteChars s.toList ++ (':' :: ' ' :: t)) (.str s, v)

theorem ReadsEntry.exists_eq_quote {n : Nat} {t : List Char} {e : Key × Value}
    (h : ReadsEntry n t e) : ∃ r, t = '"' :: r := by
  cases h
  exact ⟨_, rfl⟩

theorem ReadsEntry.starts {n : Nat} {t : List Char} {e : Key × Value} (h : ReadsEntry n t e) :
    ∃ c r, t = c :: r ∧ ¬isSpace c := by
  obtain ⟨r, rfl⟩ := h.exists_eq_quote
  exact ⟨'"', r, rfl, by decide⟩

theorem readName_quoteChars (s : String) {t : List Char} (ht : ∃ c r, t = c :: r ∧ ¬isSpace c) :
    readName (quoteChars s.toList ++ ':' :: ' ' :: t) = .ok (.str s, t) := by
  obtain ⟨c, r, rfl, hc⟩ := ht
  have hlen := length_le_flatMap_escapeChar s.toList
  have hfuel : s.toList.length <
      (s.toList.flatMap escapeChar ++ '"' :: ':' :: ' ' :: c :: r).length + 1 := by
    rw [List.length_append]
    omega
  rw [quoteChars, List.cons_append, List.cons_append, List.append_assoc, List.singleton_append,
    readName, readString?_flatMap_escapeChar s.toList hfuel]
  dsimp only
  rw [skipSpace, List.dropWhile_cons, if_neg (by decide)]
  change Except.ok (Key.ofText (.ofCodes (s.toList.map .char)), skipSpace (' ' :: c :: r)) = _
  rw [CodeText.ofCodes_toList, skipSpace, List.dropWhile_cons, if_pos (by decide),
    List.dropWhile_cons, if_neg hc]
  rfl

theorem Reads.starts_append {n : Nat} {t : List Char} {v : Value} (h : Reads n t v)
    (rest : List Char) : ∃ c r, t ++ rest = c :: r ∧ ¬isSpace c := by
  obtain ⟨c, r, rfl, hc, -⟩ := h.starts
  exact ⟨c, r ++ rest, rfl, hc⟩

section Rows

variable {n : Nat} {sp close rest : List Char} {ts : List (List Char)} (hsp : IsSpaces sp)
  (hclose : IsSpaces close)

include hsp hclose

/-- Items in a row are read one by one up to the closing bracket. -/
theorem readItems_intercalate {vs : List Value} (h : List.Forall₂ (Reads n) ts vs) (hne : ts ≠ [])
    {fuel : Nat} (hfuel : ((',' :: sp).intercalate ts).length < fuel) :
    readItems n fuel ((',' :: sp).intercalate ts ++ (close ++ ']' :: rest)) = .ok (vs, rest) := by
  induction h generalizing fuel with
  | nil => exact absurd rfl hne
  | @cons t v ts vs ht hts ih =>
    cases fuel with
    | zero => exact absurd hfuel (Nat.not_lt_zero _)
    | succ fuel =>
      cases hts with
      | nil =>
        rw [List.intercalate_singleton] at hfuel ⊢
        rw [readItems, ht.reads (Nat.le_of_lt_succ hfuel) (ends_append hclose (by decide) rest)]
        dsimp only [bind, Except.bind]
        rw [skipSpace_append hclose (by decide)]
        rfl
      | @cons t' v' ts vs ht' hts =>
        rw [List.intercalate_cons_cons] at hfuel ⊢
        simp only [List.append_assoc, List.cons_append, List.length_append, List.length_cons]
          at hfuel ⊢
        have hfuel' : ((',' :: sp).intercalate (t' :: ts)).length < fuel := by omega
        have hnext := ih (List.cons_ne_nil _ _) hfuel'
        have hstart := ht'.starts_append []
        rw [List.append_nil] at hstart
        -- The comma is seen behind the value, and the next text behind the space.
        rw [readItems, ht.reads (by omega) (ends_of_mem (by decide) _)]
        dsimp only [bind, Except.bind]
        rw [skipSpace, List.dropWhile_cons, if_neg (by decide)]
        change Except.map _ (readItems n fuel (skipSpace (sp ++ _))) = _
        rw [skipSpace_intercalate hsp hstart, hnext]
        rfl

/-- Entries in a row are read one by one up to the closing brace. -/
theorem readMembers_intercalate {es : Mapping} (h : List.Forall₂ (ReadsEntry n) ts es) (hne : ts ≠ [])
    {fuel : Nat} (hfuel : ((',' :: sp).intercalate ts).length < fuel) :
    readMembers n fuel ((',' :: sp).intercalate ts ++ (close ++ '\x7d' :: rest)) =
      .ok (es, rest) := by
  induction h generalizing fuel with
  | nil => exact absurd rfl hne
  | @cons t e ts es ht hts ih =>
    obtain ⟨s, ht⟩ := ht
    cases fuel with
    | zero => exact absurd hfuel (Nat.not_lt_zero _)
    | succ fuel =>
      cases hts with
      | nil =>
        rw [List.intercalate_singleton] at hfuel ⊢
        simp only [List.append_assoc, List.cons_append, List.length_append, List.length_cons]
          at hfuel ⊢
        rw [readMembers, readName_quoteChars s (ht.starts_append _)]
        dsimp only [bind, Except.bind]
        rw [ht.reads (by omega) (ends_append hclose (by decide) rest)]
        dsimp only
        rw [skipSpace_append hclose (by decide)]
        rfl
      | @cons t' e' ts es ht' hts =>
        rw [List.intercalate_cons_cons] at hfuel ⊢
        rw [List.length_append, List.length_append] at hfuel
        have hfuel' : ((',' :: sp).intercalate (t' :: ts)).length < fuel := by
          rw [List.length_cons] at hfuel
          omega
        have hnext := ih (List.cons_ne_nil _ _) hfuel'
        simp only [List.append_assoc, List.cons_append, List.length_append, List.length_cons]
          at hfuel ⊢
        rw [readMembers, readName_quoteChars s (ht.starts_append _)]
        dsimp only [bind, Except.bind]
        rw [ht.reads (by omega) (ends_of_mem (by decide) _)]
        dsimp only
        rw [skipSpace, List.dropWhile_cons, if_neg (by decide)]
        change Except.map _ (readMembers n fuel (skipSpace (sp ++ _))) = _
        rw [skipSpace_intercalate hsp ht'.starts, hnext]
        rfl

end Rows

/-! ## Whole values -/

theorem readValue_list {n fuel : Nat} {r r' : List Char} (h : skipSpace r = r')
    (hr : ∀ r₁, r' ≠ ']' :: r₁) : readValue (n + 1) (fuel + 1) ('[' :: r) =
      (readItems n fuel r').map fun p => (.list p.1, p.2) := by
  subst h
  exact readValue.eq_4 fuel r n hr

theorem readValue_map {n fuel : Nat} {r r' : List Char} (h : skipSpace r = r')
    (hr : ∀ r₁, r' ≠ '\x7d' :: r₁) : readValue (n + 1) (fuel + 1) ('\x7b' :: r) =
      (readMembers n fuel r').map fun p => (.map (Mapping.ofPairs p.1), p.2) := by
  subst h
  exact readValue.eq_7 fuel r n hr

/-- A row of texts starts as the first one does. -/
theorem intercalate_append_ne_cons {c d : Char} (h : c ≠ d) (t : List Char) (sep : List Char)
    (ts : List (List Char)) (r r' : List Char) :
    sep.intercalate ((c :: t) :: ts) ++ r ≠ d :: r' := by
  cases ts with
  | nil =>
    rw [List.intercalate_singleton]
    exact fun he => h (List.cons.inj he).1
  | cons t' ts =>
    rw [List.intercalate_cons_cons]
    exact fun he => h (List.cons.inj he).1

/-- Values that are read back are so as the items of a list. -/
theorem exists_items_reads {n : Nat} {l : Layout} {depth : Nat} {vs : List Value}
    (h : ∀ v ∈ vs, ∃ t, write l depth v = .ok t ∧ Reads n t.toList v) :
    ∃ ts : List String, write.items l depth vs = .ok ts ∧
      List.Forall₂ (Reads n) (ts.map String.toList) vs := by
  induction vs with
  | nil => exact ⟨[], rfl, .nil⟩
  | cons v vs ih =>
    obtain ⟨⟨t, ht, hread⟩, h⟩ := List.forall_mem_cons.1 h
    obtain ⟨ts, hts, hreads⟩ := ih h
    refine ⟨t :: ts, ?_, .cons hread hreads⟩
    rw [write.items, ht, hts]
    rfl

theorem exists_members_reads {n : Nat} {l : Layout} {depth : Nat} {es : Mapping}
    (hnames : ∀ e ∈ es, ∃ s, e.1 = .str s)
    (h : ∀ e ∈ es, ∃ t, write l depth e.2 = .ok t ∧ Reads n t.toList e.2) :
    ∃ ts : List String, write.members l depth es = .ok ts ∧
      List.Forall₂ (ReadsEntry n) (ts.map String.toList) es := by
  induction es with
  | nil => exact ⟨[], rfl, .nil⟩
  | cons e es ih =>
    obtain ⟨⟨s, hs⟩, hnames⟩ := List.forall_mem_cons.1 hnames
    obtain ⟨⟨t, ht, hread⟩, h⟩ := List.forall_mem_cons.1 h
    obtain ⟨ts, hts, hreads⟩ := ih hnames h
    obtain ⟨k, v⟩ := e
    obtain rfl : k = .str s := hs
    refine ⟨(quote s ++ ": " ++ t) :: ts, ?_, .cons ?_ hreads⟩
    · rw [write.members, ht, hts]
      rfl
    · have htext : (quote s ++ ": " ++ t).toList =
          quoteChars s.toList ++ (':' :: ' ' :: t.toList) := by
        simp [quote]
      rw [htext]
      exact .mk s hread

section Whole

variable {n : Nat} {l : Layout} (hl : l.IsBlank) (depth : Nat)

include hl

/-- A list is read back if its items are. -/
theorem reads_list {ts : List String} {vs : List Value}
    (h : List.Forall₂ (Reads n) (ts.map String.toList) vs) :
    Reads (n + 1) (l.enclose depth "[" "]" ts).toList (.list vs) := by
  have ho : "[".toList = ['['] := String.toList_ofList
  have hc : "]".toList = [']'] := String.toList_ofList
  cases ts with
  | nil =>
    cases h
    rw [Layout.toList_enclose_nil ho hc]
    refine ⟨⟨'[', _, rfl, by decide, by decide⟩, fun {fuel rest} hfuel _ => ?_⟩
    obtain ⟨fuel, rfl⟩ := Nat.exists_eq_add_of_lt hfuel
    rfl
  | cons t ts =>
    obtain ⟨sp, hbetween, hsp⟩ := Layout.exists_between hl depth
    rw [Layout.toList_enclose ho hc (List.cons_ne_nil t ts), hbetween]
    refine ⟨⟨'[', _, rfl, by decide, by decide⟩, fun {fuel rest} hfuel _ => ?_⟩
    simp only [List.map_cons, List.length_append, List.length_cons, List.length_nil,
      List.cons_append, List.append_assoc, List.nil_append] at hfuel h ⊢
    cases fuel with
    | zero => omega
    | succ fuel =>
      cases h with
      | @cons _ v _ vs ht hts =>
      obtain ⟨c, r, hstart, hspace, hbracket⟩ := ht.starts
      have hlen : ((',' :: sp).intercalate (t.toList :: ts.map String.toList)).length < fuel := by
        omega
      rw [readValue_list (skipSpace_intercalate (Layout.isSpaces_afterOpen hl depth)
        ⟨c, r, hstart, hspace⟩ _ _ _), readItems_intercalate hsp
        (Layout.isSpaces_beforeClose hl depth) (.cons ht hts) (List.cons_ne_nil _ _) hlen]
      · rfl
      · rw [hstart]
        exact intercalate_append_ne_cons hbracket r _ _ _

/-- A mapping is read back if its entries are. -/
theorem reads_map {ts : List String} {es : Mapping}
    (h : List.Forall₂ (ReadsEntry n) (ts.map String.toList) es)
    (hkeys : es.Pairwise fun e f => ¬e.1.same f.1) :
    Reads (n + 1) (l.enclose depth "\x7b" "\x7d" ts).toList (.map es) := by
  have ho : "\x7b".toList = ['\x7b'] := String.toList_ofList
  have hc : "\x7d".toList = ['\x7d'] := String.toList_ofList
  cases ts with
  | nil =>
    cases h
    rw [Layout.toList_enclose_nil ho hc]
    refine ⟨⟨'\x7b', _, rfl, by decide, by decide⟩, fun {fuel rest} hfuel _ => ?_⟩
    obtain ⟨fuel, rfl⟩ := Nat.exists_eq_add_of_lt hfuel
    rfl
  | cons t ts =>
    obtain ⟨sp, hbetween, hsp⟩ := Layout.exists_between hl depth
    rw [Layout.toList_enclose ho hc (List.cons_ne_nil t ts), hbetween]
    refine ⟨⟨'\x7b', _, rfl, by decide, by decide⟩, fun {fuel rest} hfuel _ => ?_⟩
    simp only [List.map_cons, List.length_append, List.length_cons, List.length_nil,
      List.cons_append, List.append_assoc, List.nil_append] at hfuel h ⊢
    cases fuel with
    | zero => omega
    | succ fuel =>
      cases h with
      | @cons _ e _ es he hes =>
      have hlen : ((',' :: sp).intercalate (t.toList :: ts.map String.toList)).length < fuel := by
        omega
      obtain ⟨r, hquote⟩ := he.exists_eq_quote
      rw [readValue_map (skipSpace_intercalate (Layout.isSpaces_afterOpen hl depth)
        he.starts _ _ _), readMembers_intercalate hsp (Layout.isSpaces_beforeClose hl depth)
        (.cons he hes) (List.cons_ne_nil _ _) hlen, Except.map, Mapping.ofPairs_of_pairwise hkeys]
      rw [hquote]
      exact intercalate_append_ne_cons (by decide) r _ _ _

/-- A plain value has a text, and the text is read as the value. -/
theorem exists_reads {v : Value} (h : Plain n v) :
    ∃ t, write l depth v = .ok t ∧ Reads n t.toList v := by
  induction h generalizing depth with
  | null => exact ⟨"null", rfl, .of_readScalar? (by decide) (by decide) fun _ _ => rfl⟩
  | bool b =>
    cases b with
    | false => exact ⟨"false", rfl, .of_readScalar? (by decide) (by decide) fun _ _ => rfl⟩
    | true => exact ⟨"true", rfl, .of_readScalar? (by decide) (by decide) fun _ _ => rfl⟩
  | @int n i hi =>
    have hlen : (Numeral.natText i.natAbs).length ≤ Numeral.maxDigits :=
      (Nat.length_toDigits_le_iff (by decide) (by decide)).2 hi
    refine ⟨Numeral.intText i, ?_, reads_intText n hi⟩
    change textOf (Numeral.intText? i) = _
    rw [Numeral.intText?, if_pos hlen, textOf]
  | str s => exact ⟨quote s, rfl, reads_quote _ s⟩
  | list hvs ih =>
    obtain ⟨ts, hts, hreads⟩ := exists_items_reads fun v hv => ih v hv (depth + 1)
    refine ⟨_, ?_, reads_list hl depth hreads⟩
    rw [write, hts, Except.map]
  | map hnames hkeys hvalues ih =>
    obtain ⟨ts, hts, hreads⟩ := exists_members_reads hnames fun e he => ih e he (depth + 1)
    refine ⟨_, ?_, reads_map hl depth hreads hkeys⟩
    rw [write, hts, Except.map]

end Whole

/-- A plain value has a text, and what reads the text, with space around it, gets the value. -/
theorem exists_text {l : Layout} (hl : l.IsBlank) {v : Value} (h : Plain maxNesting v) :
    ∃ t, text l v = .ok t ∧ ∀ before after, IsSpaces before → IsSpaces after →
      read (before ++ (t.toList ++ after)) = .ok v := by
  obtain ⟨t, ht, hreads⟩ := exists_reads hl 0 h
  refine ⟨t, ht, fun before after hbefore hafter => ?_⟩
  obtain ⟨c, r, hstart, hspace, -⟩ := hreads.starts
  have hends : Ends after := fun c hc => .inl (hafter c (List.mem_of_mem_head? hc))
  have hskip : skipSpace (before ++ (t.toList ++ after)) = t.toList ++ after := by
    rw [hstart]
    exact skipSpace_append hbefore hspace _
  have hfuel : t.toList.length ≤ 2 * (before ++ (t.toList ++ after)).length + 1 := by
    rw [List.length_append, List.length_append]
    omega
  have hrest : skipSpace after = [] := by
    rw [skipSpace, List.dropWhile_eq_nil_iff]
    exact hafter
  rw [read, hskip, hreads.reads hfuel hends]
  dsimp only [bind, Except.bind]
  rw [hrest]
  rfl

end Json

end Stencil
