import Stencil.Proofs.JsonRoundTrip
import Stencil.Proofs.Readings

/-!
# Values that variables carry

A variable carries a value as the JSON text of it. No reading that is tried before the one for lists
and objects takes such a text for something else, so truth values, integers, lists and mappings come
back as they are, with their entries in order. Null and a text by itself do not: their JSON texts look
like nothing that is read, and stand for themselves.

* `Coercion.IsCarried`: the values that come back;
* `Coercion.read_intText`, `Coercion.read_quote`, `Coercion.read_of_encloses`: what the JSON texts of
  integers, of texts, and of lists and mappings are read as;
* `Coercion.read_json_text`: what the JSON text of any plain value is read as.
-/

namespace Stencil

namespace Json

/-- A text stands between two characters that are not blank. -/
def Encloses (o c : Char) (cs : List Char) : Prop :=
  (Text.isBlank o = false ∧ Text.isBlank c = false) ∧ ∃ middle, cs = o :: (middle ++ [c])

theorem Encloses.trim_eq {o c : Char} {cs : List Char} (h : Encloses o c cs) : Text.trim cs = cs := by
  obtain ⟨⟨ho, hc⟩, middle, rfl⟩ := h
  refine Coercion.trim_eq_self (fun d hd => ?_) fun d hd => ?_
  · cases hd
    exact ho
  · rw [← List.cons_append, List.getLast?_concat] at hd
    cases hd
    exact hc

theorem encloses_quote (s : String) : Encloses '"' '"' (quote s).toList := by
  rw [quote, String.toList_ofList, quoteChars]
  exact ⟨by decide, _, rfl⟩

/-- A list or a mapping stands between its brackets, whatever its items are. -/
theorem Layout.encloses_enclose (l : Layout) (depth : Nat) {opening closing : String} {o c : Char}
    (ho : opening.toList = [o]) (hc : closing.toList = [c])
    (hblank : Text.isBlank o = false ∧ Text.isBlank c = false) (items : List String) :
    Encloses o c (l.enclose depth opening closing items).toList := by
  refine ⟨hblank, ?_⟩
  by_cases h : items = []
  · subst h
    exact ⟨[], Layout.toList_enclose_nil ho hc depth⟩
  · rw [Layout.toList_enclose ho hc h]
    exact ⟨(l.afterOpen depth).toList ++ ((l.between depth).toList.intercalate
      (items.map String.toList) ++ (l.beforeClose depth).toList), by simp⟩

end Json

namespace Coercion

open Json (Encloses)

variable {s : String} {v : Value}

/-! ## Integers -/

theorem eq_minus_or_isDigit {i : Int} {c : Char} (h : c ∈ (Numeral.intText i).toList) :
    c = '-' ∨ c.isDigit := by
  rw [Json.intText_toList] at h
  split at h
  · exact (List.mem_cons.1 h).imp id Numeral.isDigit_of_mem_natText
  · exact .inr (Numeral.isDigit_of_mem_natText h)

theorem trim_intText (i : Int) : Text.trim (Numeral.intText i).toList = (Numeral.intText i).toList := by
  have hblank {c : Char} (h : c ∈ (Numeral.intText i).toList) : Text.isBlank c = false := by
    rcases eq_minus_or_isDigit h with rfl | h
    · decide
    · obtain ⟨hlow, hhigh⟩ := Char.isDigit_iff_toNat.1 h
      rw [show '0'.toNat = 48 from rfl] at hlow
      rw [show '9'.toNat = 57 from rfl] at hhigh
      simp only [Text.isBlank, Bool.or_eq_false_iff, Bool.and_eq_false_iff, decide_eq_false_iff_not,
        beq_eq_false_iff_ne]
      omega
  exact trim_eq_self (fun c hc => hblank (List.mem_of_mem_head? hc))
    fun c hc => hblank (List.mem_of_getLast? hc)

theorem not_isSeparator_of_mem_intText {i : Int} {c : Char} (h : c ∈ (Numeral.intText i).toList) :
    ¬Numeral.IsSeparator c := by
  rcases eq_minus_or_isDigit h with rfl | h
  · decide
  · have hlow := (Char.isDigit_iff_toNat.1 h).1
    rw [show '0'.toNat = 48 from rfl] at hlow
    rintro ⟨-, hhigh⟩
    omega

/-- The text of an integer is a minus or nothing, and digits. -/
theorem isInteger_intText (i : Int) :
    IsInteger (Numeral.intText i).toList (Numeral.natText i.natAbs) := by
  refine ⟨?_, Nat.toDigits_ne_nil, fun c hc => ?_⟩
  · rw [Signed, trim_intText, Json.intText_toList]
    split
    · exact ⟨['-'], by simp, rfl⟩
    · exact ⟨[], by simp, rfl⟩
  · rw [Text.isDigit, Numeral.digitValue?_of_isDigit (Numeral.isDigit_of_mem_natText hc),
      Option.isSome_some]

/-- The integer that the text of an integer spells is that integer. -/
theorem integer?_intText (i : Int) : Numeral.integer? (Numeral.intText i).toList = some i := by
  have hdigits : Numeral.splitSign (Numeral.intText i).toList =
      (decide (i < 0), Numeral.natText i.natAbs) := by
    rw [Json.intText_toList]
    split
    · next hi => rw [decide_eq_true hi, Numeral.splitSign]
    · next hi =>
      rw [decide_eq_false hi, Numeral.splitSign]
      -- Digits do not start with a sign.
      · intro r h
        exact absurd (Numeral.isDigit_of_mem_natText (h ▸ List.mem_cons_self)) (by decide)
      · intro r h
        exact absurd (Numeral.isDigit_of_mem_natText (h ▸ List.mem_cons_self)) (by decide)
  unfold Numeral.integer?
  rw [hdigits]
  dsimp only
  rw [Numeral.digits?_natText]
  refine congrArg some ?_
  dsimp only
  by_cases hi : i < 0
  · rw [if_pos (decide_eq_true hi), Int.ofNat_natAbs_of_nonpos (Int.le_of_lt hi), Int.neg_neg]
  · rw [if_neg (by simpa using hi), Int.natAbs_of_nonneg (Int.not_lt.1 hi)]

/-- An integer that is not too long is read back from its text. -/
theorem read_intText {i : Int} (h : i.natAbs < 10 ^ Numeral.maxDigits) :
    read (Numeral.intText i) = .ok (.int i) := by
  have hint := isInteger_intText i
  have hlen : (Numeral.natText i.natAbs).length ≤ Numeral.maxDigits :=
    (Nat.length_toDigits_le_iff (by decide) (by decide)).2 h
  obtain ⟨j, hj, hspelled, -⟩ :=
    exists_integer_eq hint (fun c => not_isSeparator_of_mem_intText) hlen
  rw [trim_intText, integer?_intText] at hspelled
  rw [read_eq, hint.truth?_eq, hj, Option.some.inj hspelled]

/-! ## Texts -/

/-- A text between quotes looks like nothing that is read. -/
theorem read_quote (s : String) : read (Json.quote s) = .ok (.str (Json.quote s)) := by
  have hquote := Json.encloses_quote s
  obtain ⟨middle, htext⟩ := hquote.2
  have hmem : '"' ∈ Text.trim (Json.quote s).toList := by
    rw [hquote.trim_eq, htext]
    exact List.mem_cons_self
  have hsigned {body : List Char} (hbody : '"' ∉ body) : ¬Signed (Json.quote s).toList body := by
    rintro ⟨sign, hsign, htrim⟩
    rw [htrim, List.mem_append] at hmem
    simp only [List.mem_cons, List.not_mem_nil, or_false] at hsign
    rcases hsign with rfl | rfl | rfl <;> simp [hbody] at hmem
  refine read_of_forall_not ?_ (fun ds h => ?_) (fun whole fraction h => ?_) ?_
  · exact truth?_of_mem hmem ⟨by decide, by decide, by decide⟩ (by decide)
  · exact hsigned (fun hds => absurd (h.isDigit _ hds) (by decide)) h.signed
  · refine hsigned (fun hbody => ?_) h.signed
    have hdigits : '"' ∈ whole ++ fraction := by simpa using hbody
    exact absurd (h.isDigit _ hdigits) (by decide)
  · rw [hquote.trim_eq, htext]
    simp [isBracketed]

/-! ## Lists and mappings -/

/-- A JSON text between brackets is read as its value, which is not null. -/
theorem read_of_encloses {o c : Char} (h : Encloses o c s.toList)
    (hbrackets : (o = '[' ∧ c = ']') ∨ (o = '\x7b' ∧ c = '\x7d')) (hread : Json.read s.toList = .ok v)
    (hv : v ≠ .null) : read s = .ok v := by
  have hbracketed : isBracketed (Text.trim s.toList) := by
    rw [h.trim_eq]
    obtain ⟨-, middle, htext⟩ := h
    rw [htext, isBracketed, ← List.cons_append, List.getLast?_concat]
    rcases hbrackets with ⟨rfl, rfl⟩ | ⟨rfl, rfl⟩ <;> rfl
  rw [read_of_isBracketed hbracketed, h.trim_eq, hread]
  split
  · next hnull => exact absurd (Except.ok.inj hnull) hv
  · next hok => rw [Except.ok.inj hok]
  · next herror => cases herror
  · next herror => cases herror

/-! ## Any value -/

/-- A value comes back from its JSON text: it is neither null nor a text. -/
def IsCarried : Value → Prop
  | .null => False
  | .str _ => False
  | _ => True

/-- A plain value has a JSON text in every layout. Read as the text of a variable, that is the value
    itself, except for null and texts, whose JSON texts stand for themselves. -/
theorem read_json_text {l : Json.Layout} (hl : l.IsBlank) (h : Json.Plain Json.maxNesting v) :
    ∃ t, Json.text l v = .ok t ∧ (IsCarried v → read t = .ok v) ∧
      (¬IsCarried v → read t = .ok (.str t)) := by
  obtain ⟨t, ht, hread⟩ := Json.exists_text hl h
  have hread : Json.read t.toList = .ok v := by
    have hall := hread [] [] nofun nofun
    rwa [List.nil_append, List.append_nil] at hall
  refine ⟨t, ht, ?_⟩
  cases h with
  | null =>
    cases ht
    exact ⟨fun h => h.elim, fun _ => by decide +kernel⟩
  | bool b =>
    refine ⟨fun _ => ?_, fun h => absurd trivial h⟩
    cases b <;> cases ht <;> decide +kernel
  | int hi =>
    refine ⟨fun _ => ?_, fun h => absurd trivial h⟩
    have hlen : (Numeral.natText _).length ≤ Numeral.maxDigits :=
      (Nat.length_toDigits_le_iff (by decide) (by decide)).2 hi
    change textOf (Numeral.intText? _) = _ at ht
    rw [Numeral.intText?, if_pos hlen] at ht
    cases ht
    exact read_intText hi
  | str s =>
    cases ht
    exact ⟨fun h => h.elim, fun _ => read_quote s⟩
  | list hvs =>
    refine ⟨fun _ => ?_, fun h => absurd trivial h⟩
    obtain ⟨ts, -, rfl⟩ := exists_of_map_eq_ok ht
    exact read_of_encloses (l.encloses_enclose 0 String.toList_ofList String.toList_ofList
      (by decide) ts) (.inl ⟨rfl, rfl⟩) hread (by simp)
  | map hnames hkeys hvalues =>
    refine ⟨fun _ => ?_, fun h => absurd trivial h⟩
    obtain ⟨ts, -, rfl⟩ := exists_of_map_eq_ok ht
    exact read_of_encloses (l.encloses_enclose 0 String.toList_ofList String.toList_ofList
      (by decide) ts) (.inr ⟨rfl, rfl⟩) hread (by simp)

/-- A mapping on several lines is carried, with a null, a negative number and a character that takes
    two escapes in it, and its entries stay in order. -/
theorem read_json_text_lines :
    let v : Value := .map [(.str "b", .list [.null, .int (-7), .str "😀"]), (.str "a", .bool true)]
    let t := "\x7b\n  \"b\": [\n    null,\n    -7,\n    \"\\ud83d\\ude00\"\n  ],\n  \"a\": true\n\x7d"
    Json.Plain Json.maxNesting v ∧ Json.text (.indented "  ") v = .ok t ∧ read t = .ok v := by
  intro v t
  have hint : Json.Plain 978 (.int (-7)) := .int (by decide +kernel)
  have hlist : Json.Plain 979 (.list [.null, .int (-7), .str "😀"]) :=
    .list (n := 978) (by simp [Json.Plain.null, Json.Plain.str, hint])
  have hv : Json.Plain 980 v := .map (n := 979) (by simp) (by simp) (by simp [hlist, Json.Plain.bool])
  have hl : (Json.Layout.indented "  ").IsBlank := by
    intro c hc
    simp_all [Json.isSpace]
  obtain ⟨t', ht, hread, -⟩ := read_json_text hl hv
  have hwritten : Json.text (.indented "  ") v = .ok t := by decide +kernel
  obtain rfl := Except.ok.inj (ht.symm.trans hwritten)
  exact ⟨hv, hwritten, hread trivial⟩

end Coercion

end Stencil
