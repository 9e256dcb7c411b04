import Stencil.Config.Coercion
import Stencil.Proofs.JsonNesting

/-!
# Readings of texts

The text of a variable is read as the first thing that it looks like, and stands for itself if it looks
like nothing. What looks like a decimal number is one, however many digits it has, and what looks like
a list or an object and is none stands for itself. But what looks like an integer may have too many
digits, or a separator beside it, and a list may be nested too deeply.

* `Numeral.trimMargins_eq_trim_iff`: the blanks that may stand around a number;
* `Coercion.IsInteger`, `Coercion.IsDecimal`: what looks like a number;
* `Coercion.Unreadable`, `Coercion.read_eq_error_iff`: the texts that cannot be read, and why;
* `Coercion.exists_read_eq_int`, `Coercion.exists_read_eq_float`, `Coercion.read_of_isBracketed`: what
  the others are read as.
-/

namespace Stencil

open Text

/-! ## Digits -/

namespace Numeral

/-- Digits of any scripts are a number. -/
theorem exists_digits?_eq_some {cs : List Char} (h : ∀ c ∈ cs, isDigit c) (hne : cs ≠ []) :
    ∃ k, digits? cs = some k := by
  have hread (n : Nat) : ∃ k, readDigits n cs = some k := by
    clear hne
    induction cs generalizing n with
    | nil => exact ⟨n, rfl⟩
    | cons c cs ih =>
      rw [List.forall_mem_cons] at h
      obtain ⟨d, hd⟩ := Option.isSome_iff_exists.1 h.1
      rw [readDigits, hd]
      exact ih h.2 _
  obtain ⟨k, hk⟩ := hread 0
  exact ⟨k, by rw [digits?, if_neg (by simpa using hne), hk]⟩

theorem isDigit_of_mem_spanDigits {cs : List Char} {c : Char} (h : c ∈ (spanDigits cs).1) :
    isDigit c := by
  rw [spanDigits, List.span_eq_takeWhile_dropWhile] at h
  exact List.mem_takeWhile_imp h

theorem spanDigits_eq_append (cs : List Char) : (spanDigits cs).1 ++ (spanDigits cs).2 = cs := by
  rw [spanDigits, List.span_eq_takeWhile_dropWhile]
  exact List.takeWhile_append_dropWhile

/-- A text with a point in it is none of the names of special numbers. -/
theorem double?_of_point {cs : List Char} (h : '.' ∈ (splitSign cs).2) :
    double? cs = unsigned? (splitSign cs).1 (splitSign cs).2 := by
  have hpoint : '.' ∈ (splitSign cs).2.map Char.toLower := List.mem_map.2 ⟨'.', h, by decide⟩
  have hne (name : String) (hname : '.' ∉ name.toList) :
      String.ofList ((splitSign cs).2.map Char.toLower) ≠ name := by
    rintro rfl
    rw [String.toList_ofList] at hname
    exact hname hpoint
  unfold double?
  dsimp only
  rw [if_neg (hne "nan" (by decide)),
    if_neg (not_or.2 ⟨hne "inf" (by decide), hne "infinity" (by decide)⟩)]

/-! ## Margins -/

/-- One of the four ASCII separators, which are blank but may not stand around a number. -/
def IsSeparator (c : Char) : Prop := 28 ≤ c.toNat ∧ c.toNat ≤ 31

instance : DecidablePred IsSeparator := fun _ => inferInstanceAs (Decidable (_ ∧ _))

theorem isMargin_iff {c : Char} : isMargin c ↔ isBlank c ∧ ¬IsSeparator c := by
  simp only [isMargin, IsSeparator, Bool.and_eq_true, Bool.not_eq_true', Bool.and_eq_false_iff,
    decide_eq_false_iff_not, and_congr_right_iff]
  omega

theorem mem_trimMargins_or_isMargin {cs : List Char} {c : Char} (h : c ∈ cs) :
    c ∈ trimMargins cs ∨ isMargin c := by
  have hdrop {cs : List Char} (h : c ∈ cs) : c ∈ cs.dropWhile isMargin ∨ isMargin c := by
    rw [← List.takeWhile_append_dropWhile (p := isMargin) (l := cs), List.mem_append] at h
    exact h.symm.imp_right List.mem_takeWhile_imp
  rw [trimMargins, List.mem_reverse]
  refine (hdrop h).elim (fun h => ?_) .inr
  exact hdrop (List.mem_reverse.2 h)

theorem dropWhile_isMargin {cs : List Char} (h : ∀ c ∈ cs, ¬IsSeparator c) :
    cs.dropWhile isMargin = cs.dropWhile isBlank := by
  induction cs with
  | nil => rfl
  | cons c cs ih =>
    rw [List.forall_mem_cons] at h
    have hc : isMargin c = isBlank c := by
      rw [Bool.eq_iff_iff, isMargin_iff, and_iff_left h.1]
    rw [List.dropWhile_cons, List.dropWhile_cons, hc, ih h.2]

/-- The blanks around a text may stand around a number if there is no separator among them. -/
theorem trimMargins_eq_trim_iff {cs : List Char} (h : ∀ c ∈ trim cs, ¬IsSeparator c) :
    trimMargins cs = trim cs ↔ ∀ c ∈ cs, ¬IsSeparator c := by
  constructor
  · intro heq c hc
    rcases mem_trimMargins_or_isMargin hc with hc | hc
    · exact h c (heq ▸ hc)
    · exact (isMargin_iff.1 hc).2
  · intro hcs
    have hrest : ∀ c ∈ (cs.dropWhile isBlank).reverse, ¬IsSeparator c := fun c hc =>
      hcs c ((List.dropWhile_suffix _).subset (List.mem_reverse.1 hc))
    rw [trimMargins, dropWhile_isMargin hcs, dropWhile_isMargin hrest, trim, trimEnd, trimStart]

end Numeral

/-! ## Case -/

namespace Text

/-- A character stays as it is in lower case, wherever it stands. -/
structure IsCaseless (c : Char) : Prop where
  toLower_eq : toLower c = c
  ne_dotted : c.toNat ≠ 0x130
  ne_sigma : c.toNat ≠ 0x3A3

theorem mem_lowerFrom {cs : List Char} {c : Char} (hc : IsCaseless c) (h : c ∈ cs)
    (before : List Char) : c ∈ lowerFrom before cs := by
  induction cs generalizing before with
  | nil => cases h
  | cons d cs ih =>
    rw [lowerFrom, List.mem_append]
    rcases List.mem_cons.1 h with rfl | h
    · exact .inl (by simp [hc.toLower_eq, hc.ne_dotted, hc.ne_sigma])
    · exact .inr (ih h _)

/-- No digit of any script has a lower case. -/
theorem isCaseless_of_isDigit {c : Char} (h : isDigit c) : IsCaseless c := by
  have hruns : ∀ z ∈ zeros, ∀ r ∈ lowerRuns, r.last < z ∨ z + 9 < r.first := by decide +kernel
  have hspecial : ∀ z ∈ zeros, ∀ n ∈ [0x130, 0x3A3], n < z ∨ z + 9 < n := by decide
  obtain ⟨d, hd⟩ := Option.isSome_iff_exists.1 h
  obtain ⟨z, hz, hc, hlt⟩ := Numeral.exists_of_digitValue? hd
  have hnone : lowerRuns.find? (·.has c.toNat) = none := by
    refine List.find?_eq_none.2 fun r hr hhas => ?_
    simp only [CaseRun.has, Bool.and_eq_true, decide_eq_true_eq] at hhas
    have := hruns z hz r hr
    omega
  refine ⟨by rw [toLower, hnone], ?_, ?_⟩
  · have := hspecial z hz 0x130 (by simp)
    omega
  · have := hspecial z hz 0x3A3 (by simp)
    omega

end Text

namespace Coercion

open Numeral (splitSign spanDigits digits? IsSeparator maxDigits)

variable {cs body ds whole fraction : List Char}

/-! ## What looks like a number -/

/-- But for the blanks around it, a text is something with a sign in front, or without one. -/
def Signed (cs body : List Char) : Prop := ∃ sign ∈ [[], ['+'], ['-']], trim cs = sign ++ body

/-- A text looks like an integer with some digits. -/
structure IsInteger (cs ds : List Char) : Prop where
  signed : Signed cs ds
  ne_nil : ds ≠ []
  isDigit : ∀ c ∈ ds, isDigit c

/-- A text looks like a decimal number with some digits on both sides of the point. -/
structure IsDecimal (cs whole fraction : List Char) : Prop where
  signed : Signed cs (whole ++ '.' :: fraction)
  ne_nil : whole ++ fraction ≠ []
  isDigit : ∀ c ∈ whole ++ fraction, isDigit c

/-- Whatever is left without its sign, it has a sign or none in front. -/
theorem signed_splitSign (cs : List Char) : Signed cs (splitSign (trim cs)).2 := by
  unfold splitSign
  split
  · next r h => exact ⟨['-'], by simp, h⟩
  · next r h => exact ⟨['+'], by simp, h⟩
  · exact ⟨[], by simp, rfl⟩

theorem Signed.splitSign_eq (h : Signed cs body) (hplus : body.head? ≠ some '+')
    (hminus : body.head? ≠ some '-') : (splitSign (trim cs)).2 = body := by
  obtain ⟨sign, hsign, htrim⟩ := h
  rw [htrim]
  simp only [List.mem_cons, List.not_mem_nil, or_false] at hsign
  rcases hsign with rfl | rfl | rfl
  · rw [List.nil_append, splitSign]
    · rintro r rfl
      exact hminus rfl
    · rintro r rfl
      exact hplus rfl
  · rfl
  · rfl

theorem head?_ne_of_isDigit (h : ∀ c ∈ body.head?, isDigit c ∨ c = '.') {c : Char}
    (hc : isDigit c = false ∧ c ≠ '.') : body.head? ≠ some c := by
  intro hbody
  rcases h c hbody with hdigit | hpoint
  · rw [hc.1] at hdigit
    cases hdigit
  · exact hc.2 hpoint

theorem IsInteger.splitSign_eq (h : IsInteger cs ds) : (splitSign (trim cs)).2 = ds := by
  have hhead : ∀ c ∈ ds.head?, Text.isDigit c ∨ c = '.' := fun c hc =>
    .inl (h.isDigit c (List.mem_of_mem_head? hc))
  exact h.signed.splitSign_eq (head?_ne_of_isDigit hhead (by decide))
    (head?_ne_of_isDigit hhead (by decide))

theorem IsDecimal.splitSign_eq (h : IsDecimal cs whole fraction) :
    (splitSign (trim cs)).2 = whole ++ '.' :: fraction := by
  have hhead : ∀ c ∈ (whole ++ '.' :: fraction).head?, Text.isDigit c ∨ c = '.' := by
    intro c hc
    cases whole with
    | nil => exact .inr (Option.some.inj hc).symm
    | cons d whole => exact .inl (Option.some.inj hc ▸ h.isDigit d List.mem_cons_self)
  exact h.signed.splitSign_eq (head?_ne_of_isDigit hhead (by decide))
    (head?_ne_of_isDigit hhead (by decide))

/-- No sign and no digit is a separator. -/
theorem IsInteger.not_isSeparator (h : IsInteger cs ds) : ∀ c ∈ trim cs, ¬IsSeparator c := by
  obtain ⟨sign, hsign, htrim⟩ := h.signed
  intro c hc
  rw [htrim, List.mem_append] at hc
  rcases hc with hc | hc
  · simp only [List.mem_cons, List.not_mem_nil, or_false] at hsign
    rcases hsign with rfl | rfl | rfl
    · cases hc
    · cases List.mem_singleton.1 hc
      decide
    · cases List.mem_singleton.1 hc
      decide
  · rintro ⟨hlow, hhigh⟩
    obtain ⟨d, hd⟩ := Option.isSome_iff_exists.1 (h.isDigit c hc)
    obtain ⟨z, hz, hc, -⟩ := Numeral.exists_of_digitValue? hd
    -- All digits are at least the ASCII zero, and the separators are below it.
    have hzeros : ∀ z ∈ zeros, 48 ≤ z := by decide
    have := hzeros z hz
    omega

/-- An integer has no point in it. -/
theorem IsInteger.not_isDecimal (h : IsInteger cs ds) : ¬IsDecimal cs whole fraction := by
  intro hd
  have hpoint : '.' ∈ ds := by
    rw [← h.splitSign_eq, hd.splitSign_eq]
    simp
  exact absurd (h.isDigit _ hpoint) (by decide)

/-! ## Truth values -/

theorem exists_of_isBracketed (h : isBracketed cs) :
    ∃ c r, cs = c :: r ∧ (c = '[' ∨ c = '\x7b') := by
  cases cs with
  | nil => cases h
  | cons c r =>
    refine ⟨c, r, rfl, ?_⟩
    simp only [isBracketed, List.head?_cons, Bool.or_eq_true, Bool.and_eq_true, beq_iff_eq,
      Option.some_inj] at h
    exact h.elim (fun h => .inr h.1) fun h => .inl h.1

theorem exists_bool_of_truth? {v : Value} (h : truth? cs = some v) : ∃ b, v = .bool b := by
  unfold truth? at h
  dsimp only at h
  split at h
  · exact ⟨true, (Option.some.inj h).symm⟩
  · obtain ⟨-, h⟩ := Option.ite_none_right_eq_some.1 h
    exact ⟨false, (Option.some.inj h).symm⟩

/-- A character that no truth value is spelled with. -/
theorem truth?_of_mem {c : Char} (hc : c ∈ trim cs) (hcase : IsCaseless c)
    (hne : c ∉ "true".toList ++ "false".toList) : truth? cs = none := by
  rw [List.mem_append, not_or] at hne
  have hlow := mem_lowerFrom hcase hc []
  have htrue : lowerFrom [] (trim cs) ≠ "true".toList := fun h => hne.1 (h ▸ hlow)
  have hfalse : lowerFrom [] (trim cs) ≠ "false".toList := fun h => hne.2 (h ▸ hlow)
  exact (if_neg htrue).trans (if_neg hfalse)

/-- No integer is a truth value, -/
theorem IsInteger.truth?_eq (h : IsInteger cs ds) : truth? cs = none := by
  obtain ⟨sign, -, htrim⟩ := h.signed
  obtain ⟨d, ds, rfl⟩ := List.exists_cons_of_ne_nil h.ne_nil
  have hd := h.isDigit d List.mem_cons_self
  -- A digit stays a digit in lower case, and no truth value has one.
  refine truth?_of_mem (c := d) (by simp [htrim]) (isCaseless_of_isDigit hd) fun hmem => ?_
  have hletters : ("true".toList ++ "false".toList).all fun c => !Text.isDigit c := by decide
  have hd' := List.all_eq_true.1 hletters d hmem
  rw [hd] at hd'
  cases hd'

/-- no decimal number is, -/
theorem IsDecimal.truth?_eq (h : IsDecimal cs whole fraction) : truth? cs = none := by
  obtain ⟨sign, -, htrim⟩ := h.signed
  exact truth?_of_mem (c := '.') (by simp [htrim]) ⟨by decide, by decide, by decide⟩ (by decide)

/-- and nothing in brackets is. -/
theorem truth?_of_isBracketed (h : isBracketed (trim cs)) : truth? cs = none := by
  obtain ⟨c, r, htrim, hc⟩ := exists_of_isBracketed h
  refine truth?_of_mem (c := c) (by simp [htrim]) ?_ ?_
  · rcases hc with rfl | rfl
    · exact ⟨by decide, by decide, by decide⟩
    · exact ⟨by decide, by decide, by decide⟩
  · rcases hc with rfl | rfl <;> decide

/-! ## Integers -/

/-- What does not look like an integer is left to the other readers. -/
theorem integer_of_forall_not (h : ∀ ds, ¬IsInteger cs ds) : integer cs = .ok none := by
  unfold integer
  dsimp only
  refine if_pos ?_
  by_contra hdigits
  simp only [Bool.or_eq_true, List.isEmpty_iff, Bool.not_eq_true', not_or, Bool.not_eq_false,
    List.all_eq_true] at hdigits
  exact h _ ⟨signed_splitSign cs, hdigits.1, hdigits.2⟩

section Integer

variable (h : IsInteger cs ds)

include h

theorem integer_of_isInteger : integer cs =
    if Numeral.trimMargins cs ≠ trim cs then .error .badNumber
    else if maxDigits < ds.length then .error .longInteger
    else .ok ((digits? ds).map fun n =>
      .int (if (splitSign (trim cs)).1 then -(n : Int) else n)) := by
  have hdigits : (ds.isEmpty || !ds.all Text.isDigit) = false := by
    simpa [h.ne_nil] using h.isDigit
  unfold integer
  dsimp only
  rw [h.splitSign_eq, hdigits]
  exact if_neg Bool.false_ne_true

/-- A separator spoils an integer. -/
theorem integer_of_isSeparator (hsep : ∃ c ∈ cs, IsSeparator c) :
    integer cs = .error .badNumber := by
  rw [integer_of_isInteger h, if_pos]
  rw [Ne, Numeral.trimMargins_eq_trim_iff h.not_isSeparator]
  push Not
  exact hsep

variable (hsep : ∀ c ∈ cs, ¬IsSeparator c)

include hsep

theorem integer_of_long (hlen : maxDigits < ds.length) : integer cs = .error .longInteger := by
  rw [integer_of_isInteger h, if_neg, if_pos hlen]
  exact not_not.2 ((Numeral.trimMargins_eq_trim_iff h.not_isSeparator).2 hsep)

/-- An integer that is not too long is read as the one that it spells. -/
theorem exists_integer_eq (hlen : ds.length ≤ maxDigits) :
    ∃ i : Int, integer cs = .ok (some (.int i)) ∧ Numeral.integer? (trim cs) = some i ∧
      i.natAbs < 10 ^ maxDigits := by
  obtain ⟨n, hn⟩ := Numeral.exists_digits?_eq_some h.isDigit h.ne_nil
  refine ⟨_, ?_, ?_, Numeral.natAbs_signed_lt hn hlen (splitSign (trim cs)).1⟩
  · rw [integer_of_isInteger h, if_neg, if_neg (Nat.not_lt.2 hlen), hn]
    · rfl
    · exact not_not.2 ((Numeral.trimMargins_eq_trim_iff h.not_isSeparator).2 hsep)
  · unfold Numeral.integer?
    dsimp only
    rw [h.splitSign_eq, hn]
    rfl

end Integer

/-! ## Decimal numbers -/

/-- What looks like a decimal number is one. -/
theorem exists_decimal?_eq (h : IsDecimal cs whole fraction) :
    ∃ x : Double, decimal? cs = some (.float x) ∧ Numeral.double? (trim cs) = some x := by
  obtain ⟨n, hn⟩ := Numeral.exists_digits?_eq_some h.isDigit h.ne_nil
  obtain ⟨hwhole, hfraction⟩ := List.forall_mem_append.1 h.isDigit
  have hpoint : ∀ c ∈ ('.' :: fraction).head?, Text.isDigit c = false := by
    rintro c ⟨⟩
    decide
  have hrest := Numeral.span_append (r := []) hfraction nofun
  rw [List.append_nil] at hrest
  -- Both readers cut the body at its point and take the digits of both sides as one number.
  refine ⟨.ofDecimal (splitSign (trim cs)).1 n (-fraction.length), ?_, ?_⟩
  · unfold decimal? spanDigits
    dsimp only
    rw [h.splitSign_eq, Numeral.span_append hwhole hpoint]
    simp only [hrest]
    rw [if_pos (by simpa [imp_iff_not_or] using h.ne_nil), hn]
    rfl
  · rw [Numeral.double?_of_point (by simp [h.splitSign_eq]), h.splitSign_eq]
    unfold Numeral.unsigned? spanDigits
    dsimp only
    rw [Numeral.span_append hwhole hpoint]
    simp only [hrest, hn, Numeral.exponent?, Option.bind_some, Option.map_some, Int.zero_sub]

/-- Nothing else is. -/
theorem decimal?_of_forall_not (h : ∀ whole fraction, ¬IsDecimal cs whole fraction) :
    decimal? cs = none := by
  unfold decimal?
  dsimp only
  split
  · next r hr =>
    split
    · next hne =>
      simp only [Bool.and_eq_true, List.isEmpty_iff, Bool.not_eq_true', Bool.and_eq_false_iff] at hne
      refine absurd ⟨?_, ?_, ?_⟩ (h (spanDigits (splitSign (trim cs)).2).1 (spanDigits r).1)
      · have hfraction := Numeral.spanDigits_eq_append r
        rw [hne.1, List.append_nil] at hfraction
        rw [hfraction, ← hr, Numeral.spanDigits_eq_append]
        exact signed_splitSign cs
      · simpa [imp_iff_not_or] using hne.2
      · exact List.forall_mem_append.2 ⟨fun _ => Numeral.isDigit_of_mem_spanDigits,
          fun _ => Numeral.isDigit_of_mem_spanDigits⟩
    · rfl
  · rfl

/-! ## Brackets -/

/-- No number has a bracket in front. -/
theorem not_signed_of_isBracketed (h : isBracketed (trim cs))
    (hbody : ∀ c ∈ body, Text.isDigit c ∨ c = '.') (hne : body ≠ []) : ¬Signed cs body := by
  rintro ⟨sign, hsign, hsplit⟩
  obtain ⟨c, r, htrim, hc⟩ := exists_of_isBracketed h
  obtain ⟨d, body, rfl⟩ := List.exists_cons_of_ne_nil hne
  rw [htrim] at hsplit
  simp only [List.mem_cons, List.not_mem_nil, or_false] at hsign
  rcases hsign with rfl | rfl | rfl <;> obtain ⟨rfl, -⟩ := List.cons.inj hsplit
  · revert hc
    rcases hbody c List.mem_cons_self with hdigit | rfl
    · rintro (rfl | rfl)
      · exact absurd hdigit (by decide)
      · exact absurd hdigit (by decide)
    · decide
  · revert hc
    decide
  · revert hc
    decide

theorem IsInteger.not_isBracketed (h : IsInteger cs ds) : ¬isBracketed (trim cs) := fun hb =>
  not_signed_of_isBracketed hb (fun c hc => .inl (h.isDigit c hc)) h.ne_nil h.signed

theorem IsDecimal.not_isBracketed (h : IsDecimal cs whole fraction) : ¬isBracketed (trim cs) := by
  intro hb
  refine not_signed_of_isBracketed hb (fun c hc => ?_) (by simp) h.signed
  rw [List.mem_append, List.mem_cons] at hc
  rcases hc with hc | rfl | hc
  · exact .inl (h.isDigit c (List.mem_append_left _ hc))
  · exact .inr rfl
  · exact .inl (h.isDigit c (List.mem_append_right _ hc))

/-! ## Texts that cannot be read -/

/-- The text of a variable cannot be read, and this is why. -/
inductive Unreadable (s : String) : Breach → Prop
  /-- It looks like an integer, but has a separator beside it. -/
  | separated {ds : List Char} (h : IsInteger s.toList ds) (hsep : ∃ c ∈ s.toList, IsSeparator c) :
    Unreadable s .badNumber
  /-- It looks like an integer of too many digits. -/
  | long {ds : List Char} (h : IsInteger s.toList ds) (hsep : ∀ c ∈ s.toList, ¬IsSeparator c)
    (hlen : maxDigits < ds.length) : Unreadable s .longInteger
  /-- It looks like a list or an object that is nested too deeply. -/
  | deep (h : isBracketed (trim s.toList)) (hread : Json.read (trim s.toList) = .error .tooDeep) :
    Unreadable s .tooDeep

variable {s : String} {b : Breach} {v : Value}

/-- The readings are tried one after the other. -/
theorem read_eq (s : String) : read s =
    match truth? s.toList with
    | some v => .ok v
    | none =>
      match integer s.toList with
      | .error b => .error b
      | .ok (some v) => .ok v
      | .ok none =>
        match decimal? s.toList with
        | some v => .ok v
        | none =>
          match structured s.toList with
          | .error b => .error b
          | .ok (some v) => .ok v
          | .ok none => .ok (.str s) := by
  unfold read
  dsimp only [bind, Except.bind]
  cases truth? s.toList with
  | some v => rfl
  | none =>
    rcases integer s.toList with b | ⟨_ | v⟩
    · rfl
    · cases decimal? s.toList with
      | some v => rfl
      | none => rcases structured s.toList with b | ⟨_ | v⟩ <;> rfl
    · rfl

/-- What stands between brackets is a JSON value, or the text itself. -/
theorem read_of_isBracketed (h : isBracketed (trim s.toList)) : read s =
    match Json.read (trim s.toList) with
    | .ok .null => .ok (.str s)
    | .ok v => .ok v
    | .error .malformed => .ok (.str s)
    | .error .tooDeep => .error .tooDeep := by
  have hinteger : integer s.toList = .ok none :=
    integer_of_forall_not fun ds hds => hds.not_isBracketed h
  have hdecimal : decimal? s.toList = none :=
    decimal?_of_forall_not fun whole fraction hd => hd.not_isBracketed h
  rw [read_eq, truth?_of_isBracketed h, hinteger, hdecimal, structured]
  dsimp only
  rw [if_pos h]
  rcases Json.read (trim s.toList) with (_ | _) | v
  · rfl
  · rfl
  · cases v with
    | scalar c => cases c <;> rfl
    | _ => rfl

theorem structured_of_not_isBracketed (h : ¬isBracketed (trim cs)) : structured cs = .ok none := by
  rw [structured]
  exact if_neg h

/-- What looks like a decimal number is read as the one that it spells. -/
theorem exists_read_eq_float (h : IsDecimal s.toList whole fraction) :
    ∃ x : Double, read s = .ok (.float x) ∧ Numeral.double? (trim s.toList) = some x := by
  obtain ⟨x, hx, hdouble⟩ := exists_decimal?_eq h
  rw [read_eq, h.truth?_eq, integer_of_forall_not fun ds hds => hds.not_isDecimal h, hx]
  exact ⟨x, rfl, hdouble⟩

/-- What looks like an integer is read as the one that it spells, or it cannot be read. -/
theorem exists_read_eq_int (h : IsInteger s.toList ds) (hs : ∀ b, ¬Unreadable s b) :
    ∃ i : Int, read s = .ok (.int i) ∧ Numeral.integer? (trim s.toList) = some i ∧
      i.natAbs < 10 ^ maxDigits := by
  have hsep : ∀ c ∈ s.toList, ¬IsSeparator c := by
    by_contra hsep
    push Not at hsep
    exact hs _ (.separated h hsep)
  obtain ⟨i, hi, hspelled⟩ :=
    exists_integer_eq h hsep (Nat.not_lt.1 fun hlen => hs _ (.long h hsep hlen))
  rw [read_eq, h.truth?_eq, hi]
  exact ⟨i, rfl, hspelled⟩

/-- The texts that cannot be read, and why. -/
theorem read_eq_error_iff : read s = .error b ↔ Unreadable s b := by
  constructor
  · intro hread
    -- What looks like an integer is never tried as anything else, so its failure is final. Of the
    -- other readers, only the one of brackets can fail.
    by_cases hint : ∃ ds, IsInteger s.toList ds
    · obtain ⟨ds, hds⟩ := hint
      rw [read_eq, hds.truth?_eq] at hread
      by_cases hsep : ∃ c ∈ s.toList, IsSeparator c
      · rw [integer_of_isSeparator hds hsep] at hread
        cases hread
        exact .separated hds hsep
      · push Not at hsep
        by_cases hlen : maxDigits < ds.length
        · rw [integer_of_long hds hsep hlen] at hread
          cases hread
          exact .long hds hsep hlen
        · obtain ⟨i, hi, -⟩ := exists_integer_eq hds hsep (Nat.not_lt.1 hlen)
          rw [hi] at hread
          cases hread
    · by_cases hbracketed : isBracketed (trim s.toList)
      · rw [read_of_isBracketed hbracketed] at hread
        split at hread
        · cases hread
        · cases hread
        · cases hread
        · next hjson =>
          cases hread
          exact .deep hbracketed hjson
      · push Not at hint
        rw [read_eq, integer_of_forall_not hint, structured_of_not_isBracketed hbracketed] at hread
        split at hread
        · cases hread
        · dsimp only at hread
          split at hread <;> cases hread
  · rintro (⟨h, hsep⟩ | ⟨h, hsep, hlen⟩ | ⟨h, hjson⟩)
    · rw [read_eq, h.truth?_eq, integer_of_isSeparator h hsep]
    · rw [read_eq, h.truth?_eq, integer_of_long h hsep hlen]
    · rw [read_of_isBracketed h, hjson]

/-- All other texts can be read. -/
theorem exists_read_eq_ok_iff : (∃ v, read s = .ok v) ↔ ∀ b, ¬Unreadable s b := by
  constructor
  · rintro ⟨v, hv⟩ b hb
    rw [read_eq_error_iff.2 hb] at hv
    cases hv
  · intro hs
    cases h : read s with
    | error b => exact absurd (read_eq_error_iff.1 h) (hs b)
    | ok v => exact ⟨v, rfl⟩

/-- What looks like none of these stands for itself. -/
theorem read_of_forall_not (htruth : truth? s.toList = none) (hint : ∀ ds, ¬IsInteger s.toList ds)
    (hdecimal : ∀ whole fraction, ¬IsDecimal s.toList whole fraction)
    (hbracketed : ¬isBracketed (trim s.toList)) : read s = .ok (.str s) := by
  rw [read_eq, htruth, integer_of_forall_not hint, decimal?_of_forall_not hdecimal,
    structured_of_not_isBracketed hbracketed]

/-- What is read is a JSON value, or a scalar that is no integer of too many digits and has no more bits
    than it may have. -/
theorem scalar_or_json_of_read (h : read s = .ok v) :
    (∃ c : Scalar, v = .scalar c ∧ c.IsShort ∧ c.IsProper) ∨
      Json.read (trim s.toList) = .ok v := by
  by_cases hbracketed : isBracketed (trim s.toList)
  -- Between brackets, null and what is malformed stand for the text itself.
  · rw [read_of_isBracketed hbracketed] at h
    split at h
    · cases h
      exact .inl ⟨_, rfl, trivial, trivial⟩
    · next hjson =>
      cases h
      exact .inr hjson
    · cases h
      exact .inl ⟨_, rfl, trivial, trivial⟩
    · cases h
  refine .inl ?_
  by_cases hint : ∃ ds, IsInteger s.toList ds
  · obtain ⟨ds, hds⟩ := hint
    obtain ⟨i, hi, -, hlt⟩ := exists_read_eq_int hds (exists_read_eq_ok_iff.1 ⟨v, h⟩)
    rw [hi] at h
    cases h
    exact ⟨_, rfl, hlt, trivial⟩
  by_cases hdecimal : ∃ whole fraction, IsDecimal s.toList whole fraction
  · obtain ⟨whole, fraction, hd⟩ := hdecimal
    obtain ⟨x, hx, hdouble⟩ := exists_read_eq_float hd
    rw [hx] at h
    cases h
    exact ⟨_, rfl, trivial, Numeral.isProper_of_double? hdouble⟩
  push Not at hint hdecimal
  cases htruth : truth? s.toList with
  | none =>
    rw [read_of_forall_not htruth hint hdecimal hbracketed] at h
    cases h
    exact ⟨_, rfl, trivial, trivial⟩
  | some w =>
    rw [read_eq, htruth] at h
    cases h
    obtain ⟨t, rfl⟩ := exists_bool_of_truth? htruth
    exact ⟨_, rfl, trivial, trivial⟩

theorem distinct_of_read (h : read s = .ok v) : v.Distinct := by
  rcases scalar_or_json_of_read h with ⟨c, rfl, -⟩ | h
  · exact .scalar c
  · exact Json.distinct_of_read h

/-! ## Texts that can be read -/

theorem sublist_trim (cs : List Char) : (trim cs).Sublist cs := by
  -- The end is trimmed as the start of the reverse is.
  have hend : (trim cs).Sublist (trimStart cs) := by
    have hsuffix := (List.dropWhile_suffix (l := (trimStart cs).reverse) isBlank).sublist.reverse
    rwa [List.reverse_reverse] at hsuffix
  exact hend.trans (List.dropWhile_suffix _).sublist

/-- An integer has no more digits than its text has characters. -/
theorem IsInteger.length_le (h : IsInteger cs ds) : ds.length ≤ cs.length := by
  obtain ⟨sign, -, htrim⟩ := h.signed
  refine le_trans ?_ (sublist_trim cs).length_le
  rw [htrim, List.length_append]
  exact Nat.le_add_left _ _

/-- A text without separators that is not too long, and that has no more brackets than there may be
    levels, can be read. -/
theorem exists_read_of_short (hsep : ∀ c ∈ s.toList, ¬IsSeparator c) (hlen : s.length ≤ maxDigits)
    (hopening : Json.opening s.toList ≤ Json.maxNesting) : ∃ v, read s = .ok v := by
  refine exists_read_eq_ok_iff.2 fun b hb => ?_
  cases hb with
  | separated h hmem =>
    obtain ⟨c, hc, hsepc⟩ := hmem
    exact hsep c hc hsepc
  | long h _ hlong =>
    have hle := h.length_le
    rw [String.length_toList] at hle
    omega
  | deep h hread =>
    have hlt := Json.lt_opening_of_read hread
    have hle : Json.opening (trim s.toList) ≤ Json.opening s.toList := (sublist_trim _).countP_le
    omega

/-! ## Too many digits and brackets -/

/-- A text without blanks at its ends is trimmed already. -/
theorem trim_eq_self (hhead : ∀ c ∈ cs.head?, isBlank c = false)
    (hlast : ∀ c ∈ cs.getLast?, isBlank c = false) : trim cs = cs := by
  have hdrop {cs : List Char} (h : ∀ c ∈ cs.head?, isBlank c = false) :
      cs.dropWhile isBlank = cs := by
    cases cs with
    | nil => rfl
    | cons c cs => exact List.dropWhile_cons_of_neg (by simp [h c rfl])
  rw [trim, trimStart, hdrop hhead, trimEnd, hdrop (by rwa [List.head?_reverse]), List.reverse_reverse]

/-- However many digits are too many, there is a text that cannot be read for them. -/
theorem read_of_ones {n : Nat} (h : maxDigits < n) :
    read (String.ofList (List.replicate n '1')) = .error .longInteger := by
  have hpos : n ≠ 0 := Nat.ne_zero_of_lt h
  have hone : ∀ c ∈ List.replicate n '1', c = '1' := fun c hc => List.eq_of_mem_replicate hc
  have htrim : trim (List.replicate n '1') = List.replicate n '1' := by
    refine trim_eq_self (fun c hc => ?_) fun c hc => ?_
    · rw [hone c (List.mem_of_mem_head? hc)]
      decide
    · rw [hone c (List.mem_of_getLast? hc)]
      decide
  have hdigits : IsInteger (String.ofList (List.replicate n '1')).toList (List.replicate n '1') := by
    rw [String.toList_ofList]
    refine ⟨⟨[], by simp, htrim⟩, by simpa using hpos, fun c hc => ?_⟩
    rw [hone c hc]
    decide
  refine read_eq_error_iff.2 (.long hdigits (fun c hc => ?_) (by simpa using h))
  rw [String.toList_ofList] at hc
  rw [hone c hc]
  decide

/-- And so with brackets. -/
theorem read_of_brackets {n : Nat} (h : Json.maxNesting < n) :
    read (String.ofList (List.replicate n '[' ++ [']'])) = .error .tooDeep := by
  obtain ⟨n, rfl⟩ := Nat.exists_eq_add_one_of_ne_zero (Nat.ne_zero_of_lt h)
  have htrim : trim (List.replicate (n + 1) '[' ++ [']']) = List.replicate (n + 1) '[' ++ [']'] := by
    refine trim_eq_self (fun c hc => ?_) fun c hc => ?_
    · obtain rfl : '[' = c := Option.some.inj hc
      decide
    · rw [List.getLast?_append, List.getLast?_singleton] at hc
      obtain rfl : ']' = c := Option.some.inj hc
      decide
  refine read_eq_error_iff.2 (.deep ?_ ?_)
  · rw [String.toList_ofList, htrim, isBracketed, List.getLast?_append]
    rfl
  · rw [String.toList_ofList, htrim, Json.read_of_brackets h]

end Coercion

end Stencil
