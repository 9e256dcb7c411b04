import Stencil.Proofs.DistinctKeys
import Stencil.Proofs.DoubleDigits

/-!
# What reading JSON gives and leaves

Whatever is read of a text gives a value and leaves an end of the text. So every list and every object
that is opened has a bracket of its own, and a text that is nested too deeply has more brackets than
there may be levels.

* `Json.Parsed`: what may come of reading a part of a text, with `map`, `bind` and `of_bracket`;
* `Json.parsed_parts`, `Json.of_read_eq_ok`: a property that passes from the parts of a value to the
  value holds of all that is read;
* `Json.lt_opening_of_read`, `Json.read_of_brackets`: texts that are nested too deeply.
-/

namespace Stencil

open Text

/-! ## Digits -/

namespace Numeral

/-- A digit stands at most nine places behind a zero, and its value is the distance. -/
theorem exists_of_digitValue? {c : Char} {d : Nat} (h : digitValue? c = some d) :
    ∃ z ∈ zeros, c.toNat = z + d ∧ d < 10 := by
  obtain ⟨z, hz, rfl⟩ := Option.map_eq_some_iff.1 h
  have hrange := List.find?_some hz
  simp only [Bool.and_eq_true, decide_eq_true_eq] at hrange
  exact ⟨z, List.mem_of_find?_eq_some hz, by omega, by omega⟩

theorem readDigits_lt {cs : List Char} {n k : Nat} (h : readDigits n cs = some k) :
    k < (n + 1) * 10 ^ cs.length := by
  induction cs generalizing n with
  | nil =>
    cases h
    simp
  | cons c cs ih =>
    obtain ⟨d, hd, h⟩ := Option.bind_eq_some_iff.1 h
    obtain ⟨-, -, -, hlt⟩ := exists_of_digitValue? hd
    have hstep : 10 * n + d + 1 ≤ (n + 1) * 10 := by omega
    rw [List.length_cons, Nat.pow_succ, Nat.mul_comm (10 ^ cs.length), ← Nat.mul_assoc]
    exact (ih h).trans_le (Nat.mul_le_mul_right _ hstep)

/-- A number is smaller than the power of ten with as many zeros as it has digits. -/
theorem digits?_lt {cs : List Char} {k : Nat} (h : digits? cs = some k) : k < 10 ^ cs.length := by
  obtain ⟨-, h⟩ := Option.ite_none_left_eq_some.1 h
  simpa using readDigits_lt h

/-- Few enough digits, with a sign or without one, are no integer of too many digits. -/
theorem natAbs_signed_lt {cs : List Char} {k : Nat} (h : digits? cs = some k)
    (hlen : cs.length ≤ maxDigits) (negative : Bool) :
    (if negative then -(k : Int) else k).natAbs < 10 ^ maxDigits := by
  have hk : k < 10 ^ maxDigits := (digits?_lt h).trans_le (Nat.pow_le_pow_right (by decide) hlen)
  cases negative with
  | false => exact hk
  | true => rwa [if_pos rfl, Int.natAbs_neg, Int.natAbs_natCast]

end Numeral

/-! ## Nesting -/

namespace Json

/-- The number of brackets that open a list or an object, also where they stand in texts. -/
def opening (cs : List Char) : Nat := cs.countP fun c => c == '[' || c == '\x7b'

theorem opening_cons {c : Char} (hc : c = '[' ∨ c = '\x7b') (cs : List Char) :
    opening (c :: cs) = opening cs + 1 := by
  rcases hc with rfl | rfl
  · exact List.countP_cons_of_pos rfl
  · exact List.countP_cons_of_pos rfl

theorem opening_le_of_isSuffix {cs r : List Char} (h : r <:+ cs) : opening r ≤ opening cs :=
  h.sublist.countP_le

theorem isSuffix_of_readUnit? {cs r : List Char} {unit : Nat} (h : readUnit? cs = some (unit, r)) :
    r <:+ cs := by
  unfold readUnit? at h
  split at h
  · obtain ⟨u, -, h⟩ := Option.map_eq_some_iff.1 h
    cases h
    exact ⟨[_, _, _, _], rfl⟩
  · cases h

theorem isSuffix_of_readPair? {high : Nat} {cs r : List Char} {c : Char}
    (h : readPair? high cs = some (c, r)) : r <:+ cs := by
  unfold readPair? at h
  split at h
  · obtain ⟨⟨low, rest⟩, hp, h⟩ := Option.bind_eq_some_iff.1 h
    obtain ⟨-, h⟩ := Option.ite_none_right_eq_some.1 h
    obtain rfl : rest = r := congrArg Prod.snd (Option.some.inj h)
    exact (isSuffix_of_readUnit? hp).trans ⟨['\\', 'u'], rfl⟩
  · cases h

theorem isSuffix_unitCode (unit : Nat) (cs : List Char) : (unitCode unit cs).2 <:+ cs := by
  unfold unitCode
  split
  · cases h : readPair? unit cs with
    | none => exact List.suffix_rfl
    | some p => exact isSuffix_of_readPair? h
  · exact List.suffix_rfl

/-- What follows a text is an end of what was given, and so it is with numbers and words. -/
theorem isSuffix_of_readString? {fuel : Nat} {cs r : List Char} {t : List CodePoint}
    (h : readString? fuel cs = some (t, r)) : r <:+ cs := by
  fun_induction readString? fuel cs generalizing t r with
  | case1 => cases h
  | case2 => cases h
  | case3 fuel rest ih =>
    obtain ⟨p, hp, h⟩ := Option.bind_eq_some_iff.1 h
    obtain ⟨q, hq, h⟩ := Option.map_eq_some_iff.1 h
    cases h
    exact ((ih _ hq).trans (isSuffix_unitCode _ _)).trans
      ((isSuffix_of_readUnit? hp).trans ⟨['\\', 'u'], rfl⟩)
  | case4 fuel e rest _ ih =>
    obtain ⟨c, -, h⟩ := Option.bind_eq_some_iff.1 h
    obtain ⟨q, hq, h⟩ := Option.map_eq_some_iff.1 h
    cases h
    exact (ih hq).trans ⟨['\\', e], rfl⟩
  | case5 =>
    cases h
    exact List.suffix_cons _ _
  | case6 => cases h
  | case7 fuel c rest _ _ _ _ ih =>
    obtain ⟨q, hq, h⟩ := Option.map_eq_some_iff.1 h
    cases h
    exact (ih hq).trans (List.suffix_cons c rest)

theorem isSuffix_spanDigits (cs : List Char) : (spanDigits cs).2 <:+ cs := by
  rw [spanDigits, List.span_eq_takeWhile_dropWhile]
  exact List.dropWhile_suffix _

theorem isSuffix_readFraction (cs : List Char) : (readFraction cs).2 <:+ cs := by
  unfold readFraction
  split
  · split
    · exact List.suffix_rfl
    · exact (isSuffix_spanDigits _).trans (List.suffix_cons _ _)
  · exact List.suffix_rfl

theorem isSuffix_readExponent (cs : List Char) : (readExponent cs).2 <:+ cs := by
  have hsign (r : List Char) : (Numeral.splitSign r).2 <:+ r := by
    unfold Numeral.splitSign
    split
    · exact List.suffix_cons _ _
    · exact List.suffix_cons _ _
    · exact List.suffix_rfl
  unfold readExponent
  split
  · next c r =>
    split
    · dsimp only
      split
      · exact List.suffix_rfl
      · next hspan =>
        have hrest := isSuffix_spanDigits (Numeral.splitSign r).2
        rw [hspan] at hrest
        exact hrest.trans ((hsign r).trans (List.suffix_cons c r))
    · exact List.suffix_rfl
  · exact List.suffix_rfl

theorem isSuffix_of_readWhole? {cs ds r : List Char} (h : readWhole? cs = some (ds, r)) :
    r <:+ cs := by
  unfold readWhole? at h
  split at h
  · cases h
    exact List.suffix_cons _ _
  · split at h
    · cases h
    · have hrest := isSuffix_spanDigits cs
      rwa [Option.some.inj h] at hrest

theorem isSuffix_of_readUnsigned? {negative : Bool} {cs : List Char} {v : Value} {r : List Char}
    (h : readUnsigned? negative cs = some (v, r)) : r <:+ cs := by
  obtain ⟨⟨whole, rest⟩, hwhole, h⟩ := Option.bind_eq_some_iff.1 h
  have hexponent := (isSuffix_readExponent (readFraction rest).2).trans
    ((isSuffix_readFraction rest).trans (isSuffix_of_readWhole? hwhole))
  dsimp only at h
  split at h
  · split at h
    · cases h
    · obtain ⟨n, -, h⟩ := Option.map_eq_some_iff.1 h
      cases h
      exact hexponent
  · obtain ⟨n, -, h⟩ := Option.map_eq_some_iff.1 h
    cases h
    exact hexponent

theorem isSuffix_of_readScalar? {cs : List Char} {v : Value} {r : List Char}
    (h : readScalar? cs = some (v, r)) : r <:+ cs := by
  unfold readScalar? at h
  split at h
  · obtain ⟨p, hp, h⟩ := Option.map_eq_some_iff.1 h
    cases h
    exact (isSuffix_of_readString? hp).trans (List.suffix_cons _ _)
  · rcases Option.or_eq_some_iff.1 h with h | ⟨-, h⟩
    · obtain ⟨w, -, h⟩ := Option.map_eq_some_iff.1 h
      cases h
      exact List.drop_suffix _ _
    · unfold readNumber? at h
      split at h
      · exact (isSuffix_of_readUnsigned? h).trans (List.suffix_cons _ _)
      · exact isSuffix_of_readUnsigned? h

theorem isSuffix_skipSpace (cs : List Char) : skipSpace cs <:+ cs := List.dropWhile_suffix _

theorem isSuffix_of_skipSpace_eq {cs r : List Char} {c : Char} (h : skipSpace cs = c :: r) :
    r <:+ cs :=
  (List.suffix_cons c r).trans (h ▸ isSuffix_skipSpace cs)

/-- What may come of reading a part of a text: something with a property and an end of the text, or too
    many brackets for the levels that are left. -/
def Parsed {α : Type} (P : α → Prop) (nesting : Nat) (cs : List Char) :
    Except Flaw (α × List Char) → Prop
  | .ok (a, r) => P a ∧ r <:+ cs
  | .error .tooDeep => nesting < opening cs
  | .error .malformed => True

namespace Parsed

variable {α β : Type} {P : α → Prop} {Q : β → Prop} {nesting : Nat} {cs rest : List Char}
  {x : Except Flaw (α × List Char)}

theorem map (h : Parsed P nesting cs x) {f : α → β} (hf : ∀ a, P a → Q (f a)) :
    Parsed Q nesting cs (x.map fun p => (f p.1, p.2)) := by
  rcases x with (_ | _) | ⟨a, r⟩
  · exact h
  · exact h
  · exact ⟨hf a h.1, h.2⟩

theorem bind (h : Parsed P nesting cs x) {f : α × List Char → Except Flaw (β × List Char)}
    (hf : ∀ a r, P a → r <:+ cs → Parsed Q nesting cs (f (a, r))) :
    Parsed Q nesting cs (x >>= f) := by
  rcases x with (_ | _) | ⟨a, r⟩
  · exact h
  · exact h
  · exact hf a r h.1 h.2

/-- An end of a text has no more brackets than the text. -/
theorem of_isSuffix (h : Parsed P nesting rest x) (hrest : rest <:+ cs) : Parsed P nesting cs x := by
  rcases x with (_ | _) | ⟨a, r⟩
  · exact h
  · exact h.trans_le (opening_le_of_isSuffix hrest)
  · exact ⟨h.1, h.2.trans hrest⟩

/-- Behind a bracket there is one bracket and one level less. -/
theorem of_bracket {c : Char} (h : Parsed P nesting rest x) (hrest : rest <:+ cs)
    (hc : c = '[' ∨ c = '\x7b') : Parsed P (nesting + 1) (c :: cs) x := by
  rcases x with (_ | _) | ⟨a, r⟩
  · exact h
  · have hlt : nesting < opening cs := h.trans_le (opening_le_of_isSuffix hrest)
    rw [Parsed, opening_cons hc]
    exact Nat.succ_lt_succ hlt
  · exact ⟨h.1, h.2.trans (hrest.trans (List.suffix_cons c cs))⟩

end Parsed

/-- The name of a member is a text. -/
theorem parsed_readName (nesting : Nat) (cs : List Char) :
    Parsed (fun k => ∃ t, k = Key.ofText t) nesting cs (readName cs) := by
  unfold readName
  split
  · next rest =>
    split
    · trivial
    · next name behind hname =>
      split
      · next r hr =>
        have hbehind := (isSuffix_of_readString? hname).trans (List.suffix_cons '"' rest)
        exact ⟨⟨_, rfl⟩, (isSuffix_skipSpace r).trans ((isSuffix_of_skipSpace_eq hr).trans hbehind)⟩
      · trivial
  · trivial

section Values

variable {P : Value → Prop} (hscalar : ∀ cs v r, readScalar? cs = some (v, r) → P v)
  (hlist : ∀ vs, (∀ v ∈ vs, P v) → P (.list vs))
  (hmap : ∀ es, (∀ e ∈ es, (∃ t, e.1 = Key.ofText t) ∧ P e.2) → P (.map (Mapping.ofPairs es)))

include hscalar hlist hmap

/-- What holds of scalars and passes from the items of a list to the list, and from the members of an
    object to the object, holds of all parts that are read. -/
theorem parsed_parts (fuel : Nat) :
    (∀ nesting cs, Parsed P nesting cs (readValue nesting fuel cs)) ∧
    (∀ nesting cs, Parsed (∀ v ∈ ·, P v) nesting cs (readItems nesting fuel cs)) ∧
    ∀ nesting cs, Parsed (∀ e ∈ ·, (∃ t, e.1 = Key.ofText t) ∧ P e.2) nesting cs
      (readMembers nesting fuel cs) := by
  induction fuel with
  | zero => exact ⟨fun _ _ => trivial, fun _ _ => trivial, fun _ _ => trivial⟩
  | succ fuel ih =>
    obtain ⟨hvalue, hitems, hmembers⟩ := ih
    refine ⟨fun nesting cs => ?_, fun nesting cs => ?_, fun nesting cs => ?_⟩
    · rw [readValue.eq_def]
      dsimp only
      split
      · next r =>
        split
        · rw [Parsed, opening_cons (.inl rfl)]
          exact Nat.succ_pos _
        · next hr =>
          have hempty := hlist [] fun _ hv => absurd hv List.not_mem_nil
          exact ⟨hempty, (isSuffix_of_skipSpace_eq hr).trans (List.suffix_cons '[' r)⟩
        · exact ((hitems _ _).map hlist).of_bracket (isSuffix_skipSpace r) (.inl rfl)
      · next r =>
        split
        · rw [Parsed, opening_cons (.inr rfl)]
          exact Nat.succ_pos _
        · next hr =>
          have hempty := hmap [] fun _ he => absurd he List.not_mem_nil
          exact ⟨hempty, (isSuffix_of_skipSpace_eq hr).trans (List.suffix_cons '\x7b' r)⟩
        · exact ((hmembers _ _).map hmap).of_bracket (isSuffix_skipSpace r) (.inr rfl)
      · split
        · next p hp => exact ⟨hscalar _ _ _ hp, isSuffix_of_readScalar? hp⟩
        · trivial
    · rw [readItems]
      refine (hvalue nesting cs).bind fun v r hv hr => ?_
      dsimp only
      split
      · next behind hbehind =>
        have hnext := (isSuffix_skipSpace behind).trans (isSuffix_of_skipSpace_eq hbehind)
        exact ((hitems nesting _).map fun vs hvs => List.forall_mem_cons.2 ⟨hv, hvs⟩).of_isSuffix
          (hnext.trans hr)
      · next hclosed =>
        exact ⟨List.forall_mem_singleton.2 hv, (isSuffix_of_skipSpace_eq hclosed).trans hr⟩
      · trivial
    · rw [readMembers]
      refine (parsed_readName nesting cs).bind fun k behind hk hbehind => ?_
      refine ((hvalue nesting behind).of_isSuffix hbehind).bind fun v r hv hr => ?_
      dsimp only
      split
      · next behind hbehind =>
        have hnext := (isSuffix_skipSpace behind).trans (isSuffix_of_skipSpace_eq hbehind)
        exact ((hmembers nesting _).map fun es hes =>
          List.forall_mem_cons.2 ⟨⟨hk, hv⟩, hes⟩).of_isSuffix (hnext.trans hr)
      · next hclosed =>
        exact ⟨List.forall_mem_singleton.2 ⟨hk, hv⟩, (isSuffix_of_skipSpace_eq hclosed).trans hr⟩
      · trivial

/-- So it holds of all values that are read. -/
theorem of_read_eq_ok {cs : List Char} {v : Value} (h : read cs = .ok v) : P v := by
  obtain ⟨⟨w, r⟩, hw, h⟩ := exists_of_bind_eq_ok h
  have hparsed := (parsed_parts hscalar hlist hmap (2 * cs.length + 1)).1 maxNesting (skipSpace cs)
  rw [hw] at hparsed
  dsimp only at h
  split at h
  · cases h
    exact hparsed.1
  · cases h

end Values

/-- A number that is read is no integer of too many digits, and has no more bits than it may have. -/
theorem exists_of_readUnsigned? {negative : Bool} {cs : List Char} {v : Value} {r : List Char}
    (h : readUnsigned? negative cs = some (v, r)) :
    ∃ c : Scalar, v = .scalar c ∧ c.IsShort ∧ c.IsProper := by
  obtain ⟨⟨whole, rest⟩, -, h⟩ := Option.bind_eq_some_iff.1 h
  dsimp only at h
  split at h
  · obtain ⟨hlen, h⟩ := Option.ite_none_left_eq_some.1 h
    obtain ⟨i, hi, h⟩ := Option.map_eq_some_iff.1 h
    obtain ⟨n, hn, hi⟩ := Option.bind_eq_some_iff.1 hi
    cases hi
    cases h
    exact ⟨_, rfl, Numeral.natAbs_signed_lt hn (Nat.not_lt.1 hlen) negative, trivial⟩
  · obtain ⟨n, -, h⟩ := Option.map_eq_some_iff.1 h
    cases h
    exact ⟨_, rfl, trivial, Double.isProper_ofDecimal _ _ _⟩

theorem exists_of_readScalar? {cs : List Char} {v : Value} {r : List Char}
    (h : readScalar? cs = some (v, r)) :
    ∃ c : Scalar, v = .scalar c ∧ c.IsShort ∧ c.IsProper := by
  unfold readScalar? at h
  split at h
  · obtain ⟨p, -, h⟩ := Option.map_eq_some_iff.1 h
    cases h
    exact ⟨_, rfl, Scalar.isShort_ofText _, Scalar.isProper_ofText _⟩
  · rcases Option.or_eq_some_iff.1 h with h | ⟨-, h⟩
    · obtain ⟨w, hw, h⟩ := Option.map_eq_some_iff.1 h
      cases h
      have hwords : ∀ w ∈ words, ∃ c : Scalar, w.2 = .scalar c ∧ c.IsShort ∧ c.IsProper := by
        simp [words, Scalar.IsShort, Scalar.IsProper, Double.IsProper]
      exact hwords w (List.mem_of_find?_eq_some hw)
    · unfold readNumber? at h
      split at h <;> exact exists_of_readUnsigned? h

theorem distinct_of_read {cs : List Char} {v : Value} (h : read cs = .ok v) : v.Distinct := by
  refine of_read_eq_ok (fun cs v r h => ?_) (fun vs => .list) (fun es hes => ?_) h
  · obtain ⟨c, rfl, -⟩ := exists_of_readScalar? h
    exact .scalar c
  · exact Mapping.distinct_nil.putAll fun e he => (hes e he).2

/-- A text that is nested too deeply has more brackets than there may be levels. -/
theorem lt_opening_of_read {cs : List Char} (h : read cs = .error .tooDeep) :
    maxNesting < opening cs := by
  have hparsed := (parsed_parts (P := fun _ => True) (fun _ _ _ _ => trivial) (fun _ _ => trivial)
    (fun _ _ => trivial) (2 * cs.length + 1)).1 maxNesting (skipSpace cs)
  refine LT.lt.trans_le ?_ (opening_le_of_isSuffix (isSuffix_skipSpace cs))
  rw [read] at h
  rcases hread : readValue maxNesting (2 * cs.length + 1) (skipSpace cs) with (_ | _) | ⟨v, r⟩
  · rw [hread] at h
    cases h
  · rwa [hread] at hparsed
  · rw [hread] at h
    dsimp only [bind, Except.bind] at h
    split at h <;> cases h

/-- More brackets in front than there may be levels are too many, whatever follows them. -/
theorem readValue_of_brackets (nesting : Nat) {fuel k : Nat} (hk : nesting < k)
    (hfuel : 2 * nesting < fuel) (r : List Char) :
    readValue nesting fuel (List.replicate k '[' ++ r) = .error .tooDeep := by
  induction nesting generalizing fuel k with
  | zero =>
    obtain ⟨k, rfl⟩ := Nat.exists_eq_add_one_of_ne_zero hk.ne'
    obtain ⟨fuel, rfl⟩ := Nat.exists_eq_add_one_of_ne_zero hfuel.ne'
    rw [List.replicate_succ, List.cons_append, readValue]
  | succ nesting ih =>
    obtain ⟨k, rfl⟩ : ∃ l, k = l + 2 := ⟨k - 2, by omega⟩
    obtain ⟨fuel, rfl⟩ : ∃ n, fuel = n + 2 := ⟨fuel - 2, by omega⟩
    have hspace : skipSpace (List.replicate (k + 1) '[' ++ r) = '[' :: (List.replicate k '[' ++ r) :=
      rfl
    have hitems : readItems nesting (fuel + 1) ('[' :: (List.replicate k '[' ++ r)) =
        .error .tooDeep := by
      rw [readItems, ← List.cons_append, ← List.replicate_succ, ih (by omega) (by omega)]
      rfl
    rw [List.replicate_succ, List.cons_append, readValue_list hspace (by simp), hitems]
    rfl

theorem read_of_brackets {k : Nat} (hk : maxNesting < k) (r : List Char) :
    read (List.replicate k '[' ++ r) = .error .tooDeep := by
  obtain ⟨k, rfl⟩ := Nat.exists_eq_add_one_of_ne_zero (Nat.ne_zero_of_lt hk)
  have hspace : skipSpace (List.replicate (k + 1) '[' ++ r) = List.replicate (k + 1) '[' ++ r := rfl
  have hlen : 2 * maxNesting < 2 * (List.replicate (k + 1) '[' ++ r).length + 1 := by
    rw [List.length_append, List.length_replicate]
    omega
  rw [read, hspace, readValue_of_brackets maxNesting hk hlen]
  rfl

end Json

end Stencil
