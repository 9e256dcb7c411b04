import Mathlib.Data.List.Pairwise
import Stencil.Proofs.Readings

/-!
# The order of readings

The text of a variable is read in four ways, one after the other. The languages of the four readings
have no text in common, so that nothing depends on which of them is tried first, and a text in none of
them stands for itself, with all the blanks around it.

* `Coercion.Reading`, `Coercion.Reading.attempt`: the ways to read, and what comes of each;
* `Coercion.Reading.Takes`, `Coercion.Reading.attempt_eq_none_iff`: the language of a reading;
* `Coercion.Reading.Takes.unique`: no two of them have a text in common;
* `Coercion.readIn`, `Coercion.readIn_congr`: readings tried in any order;
* `Coercion.at_most_one_reading`: what this says of the texts of variables.
-/

namespace Stencil

open Text

/-! ## Brackets -/

namespace Json

/-- Behind a bracket there is a list or an object, and no scalar. -/
theorem readValue_bracket_ne {c : Char} (hc : c = '[' ∨ c = '\x7b') {nesting fuel : Nat}
    {cs rest : List Char} {x : Scalar} : readValue nesting fuel (c :: cs) ≠ .ok (.scalar x, rest) := by
  intro h
  cases fuel with
  | zero => cases h
  | succ fuel =>
    rw [readValue.eq_def] at h
    dsimp only at h
    split at h
    · split at h
      · cases h
      · cases h
      · obtain ⟨p, -, h⟩ := exists_of_map_eq_ok h
        cases h
    · split at h
      · cases h
      · cases h
      · obtain ⟨p, -, h⟩ := exists_of_map_eq_ok h
        cases h
    · next hlist hmap =>
      rcases hc with rfl | rfl
      · exact hlist cs rfl
      · exact hmap cs rfl

theorem read_ne_of_isBracketed {cs : List Char} (h : Coercion.isBracketed cs) (x : Scalar) :
    read cs ≠ .ok (.scalar x) := by
  obtain ⟨c, r, rfl, hc⟩ := Coercion.exists_of_isBracketed h
  intro hread
  obtain ⟨⟨v, rest⟩, hv, hread⟩ := exists_of_bind_eq_ok hread
  have hspace : skipSpace (c :: r) = c :: r := by
    rcases hc with rfl | rfl <;> rfl
  rw [hspace] at hv
  dsimp only at hread
  split at hread
  · cases hread
    exact readValue_bracket_ne hc hv
  · cases hread

end Json

namespace Coercion

/-! ## The readings -/

/-- A way to read the text of a variable. -/
inductive Reading
  | truth
  | integer
  | decimal
  | structured
  deriving DecidableEq

namespace Reading

/-- The readings, in the order in which they are tried. -/
def all : List Reading := [.truth, .integer, .decimal, .structured]

/-- What comes of one reading: a value, nothing, or a breach. -/
def attempt : Reading → List Char → Except Breach (Option Value)
  | .truth, cs => .ok (truth? cs)
  | .integer, cs => Coercion.integer cs
  | .decimal, cs => .ok (decimal? cs)
  | .structured, cs => Coercion.structured cs

/-- A text is in the language of a reading. Blanks around it do not count. -/
def Takes : Reading → List Char → Prop
  | .truth, cs => lowerFrom [] (trim cs) = "true".toList ∨ lowerFrom [] (trim cs) = "false".toList
  | .integer, cs => ∃ ds, IsInteger cs ds
  | .decimal, cs => ∃ whole fraction, IsDecimal cs whole fraction
  | .structured, cs => isBracketed (trim cs) ∧ Json.read (trim cs) ≠ .error .malformed

variable {r q : Reading} {cs : List Char}

theorem mem_all (r : Reading) : r ∈ all := by
  cases r <;> decide

/-! ### Their languages -/

theorem truth?_eq_none_iff : truth? cs = none ↔ ¬Takes .truth cs := by
  constructor
  · rintro hnone (htrue | hfalse)
    · rw [truth?, htrue, if_pos rfl] at hnone
      cases hnone
    · rw [truth?, hfalse, if_neg (by decide), if_pos rfl] at hnone
      cases hnone
  · intro h
    rw [Takes, not_or] at h
    exact (if_neg h.1).trans (if_neg h.2)

theorem integer_eq_none_iff : Coercion.integer cs = .ok none ↔ ¬Takes .integer cs := by
  refine ⟨?_, fun h => integer_of_forall_not (not_exists.1 h)⟩
  rintro hnone ⟨ds, hds⟩
  obtain ⟨n, hn⟩ := Numeral.exists_digits?_eq_some hds.isDigit hds.ne_nil
  rw [integer_of_isInteger hds, hn] at hnone
  split at hnone
  · cases hnone
  · split at hnone <;> cases hnone

theorem decimal?_eq_none_iff : decimal? cs = none ↔ ¬Takes .decimal cs := by
  constructor
  · rintro hnone ⟨whole, fraction, hd⟩
    obtain ⟨x, hx, -⟩ := exists_decimal?_eq hd
    rw [hx] at hnone
    cases hnone
  · intro h
    exact decimal?_of_forall_not fun whole fraction hd => h ⟨whole, fraction, hd⟩

/-- What stands between brackets is no null, so it is a value, no JSON text or nested too deeply. -/
theorem structured_of_isBracketed (h : isBracketed (trim cs)) : Coercion.structured cs =
    match Json.read (trim cs) with
    | .ok v => .ok (some v)
    | .error .malformed => .ok none
    | .error .tooDeep => .error .tooDeep := by
  rw [Coercion.structured, if_pos h]
  split
  · next hnull => exact absurd hnull (Json.read_ne_of_isBracketed h _)
  · next hread => rw [hread]
  · next hread => rw [hread]
  · next hread => rw [hread]

theorem structured_eq_none_iff : Coercion.structured cs = .ok none ↔ ¬Takes .structured cs := by
  by_cases hb : isBracketed (trim cs)
  · rw [Takes, and_iff_right hb, not_not, structured_of_isBracketed hb]
    rcases Json.read (trim cs) with (_ | _) | v <;> simp
  · exact iff_of_true (structured_of_not_isBracketed hb) fun h => hb h.1

/-- A reading gives nothing exactly if the text is not in its language. -/
theorem attempt_eq_none_iff : r.attempt cs = .ok none ↔ ¬r.Takes cs := by
  cases r with
  | truth => exact (Except.ok.injEq _ _).to_iff.trans truth?_eq_none_iff
  | integer => exact integer_eq_none_iff
  | decimal => exact (Except.ok.injEq _ _).to_iff.trans decimal?_eq_none_iff
  | structured => exact structured_eq_none_iff

/-- No later reading has a text in common with an earlier one. -/
theorem pairwise_not_takes (cs : List Char) : all.Pairwise fun r q => r.Takes cs → ¬q.Takes cs := by
  have htruth (h : truth? cs = none) : ¬Takes .truth cs := truth?_eq_none_iff.1 h
  simp only [all, List.pairwise_cons, List.forall_mem_cons, List.not_mem_nil, false_implies,
    implies_true, List.Pairwise.nil, and_true]
  refine ⟨⟨?_, ?_, ?_⟩, ⟨?_, ?_⟩, ?_⟩
  · rintro ht ⟨ds, h⟩
    exact htruth h.truth?_eq ht
  · rintro ht ⟨whole, fraction, h⟩
    exact htruth h.truth?_eq ht
  · rintro ht ⟨hb, -⟩
    exact htruth (truth?_of_isBracketed hb) ht
  · rintro ⟨ds, hi⟩ ⟨whole, fraction, hd⟩
    exact hi.not_isDecimal hd
  · rintro ⟨ds, hi⟩ ⟨hb, -⟩
    exact hi.not_isBracketed hb
  · rintro ⟨whole, fraction, hd⟩ ⟨hb, -⟩
    exact hd.not_isBracketed hb

/-- A text is in the language of one reading at most. -/
theorem Takes.unique (hr : r.Takes cs) (hq : q.Takes cs) : r = q := by
  by_contra hne
  have : Std.Symm fun r q : Reading => r.Takes cs → ¬q.Takes cs := ⟨fun r q h hq hr => h hr hq⟩
  exact (pairwise_not_takes cs).forall r.mem_all q.mem_all hne hr hq

/-- Where one reading gives a value or fails, the others give nothing. -/
theorem attempt_eq_none_of_ne (hr : r.attempt cs ≠ .ok none) (hq : q ≠ r) :
    q.attempt cs = .ok none := by
  rw [Ne, attempt_eq_none_iff, not_not] at hr
  exact attempt_eq_none_iff.2 fun htakes => hq (htakes.unique hr)

/-! ### Their values -/

/-- A value is of the kind that a reading gives. -/
def Gives : Reading → Value → Prop
  | .truth, v => ∃ b, v = .bool b
  | .integer, v => ∃ i, v = .int i
  | .decimal, v => ∃ x, v = .float x
  | .structured, v => ∀ c, v ≠ .scalar c

theorem gives_of_attempt {v : Value} (h : r.attempt cs = .ok (some v)) : r.Gives v := by
  have htakes : r.Takes cs := by
    by_contra hnot
    rw [attempt_eq_none_iff.2 hnot] at h
    cases h
  cases r with
  | truth => exact exists_bool_of_truth? (Except.ok.inj h)
  | integer =>
    obtain ⟨ds, hds⟩ := htakes
    rw [attempt, integer_of_isInteger hds] at h
    split at h
    · cases h
    · split at h
      · cases h
      · obtain ⟨n, -, h⟩ := Option.map_eq_some_iff.1 (Except.ok.inj h)
        exact ⟨_, h.symm⟩
  | decimal =>
    obtain ⟨whole, fraction, hd⟩ := htakes
    obtain ⟨x, hx, -⟩ := exists_decimal?_eq hd
    rw [attempt, hx] at h
    cases h
    exact ⟨x, rfl⟩
  | structured =>
    rintro c rfl
    obtain ⟨hb, -⟩ := htakes
    rw [attempt, structured_of_isBracketed hb] at h
    split at h
    · next hread =>
      cases h
      exact Json.read_ne_of_isBracketed hb c hread
    · cases h
    · cases h

/-- No reading gives a text. -/
theorem Gives.ne_str {v : Value} (h : r.Gives v) (t : String) : v ≠ .str t := by
  rintro rfl
  cases r with
  | structured => exact h _ rfl
  | _ =>
    obtain ⟨x, hx⟩ := h
    cases hx

end Reading

/-! ## Orders -/

/-- The value that a text stands for, if readings are tried one after the other: the first one that
    does not give nothing decides, and if there is none, the text stands for itself. -/
def readIn (order : List Reading) (s : String) : Except Breach Value :=
  return (← order.findSomeM? (·.attempt s.toList)).getD (.str s)

variable {r : Reading} {order order' : List Reading} {s : String}

theorem readIn_nil : readIn [] s = .ok (.str s) := rfl

theorem readIn_cons : readIn (r :: order) s =
    match r.attempt s.toList with
    | .error b => .error b
    | .ok (some v) => .ok v
    | .ok none => readIn order s := by
  rw [readIn, List.findSomeM?]
  rcases r.attempt s.toList with b | ⟨_ | v⟩ <;> rfl

theorem read_eq_readIn (s : String) : read s = readIn Reading.all s := by
  rw [read_eq]
  simp only [Reading.all, readIn_cons, readIn_nil, Reading.attempt]
  cases truth? s.toList with
  | some v => rfl
  | none =>
    rcases integer s.toList with b | ⟨_ | v⟩
    · rfl
    · cases decimal? s.toList <;> rfl
    · rfl

/-- If no reading takes a text, it stands for itself. -/
theorem readIn_of_forall (h : ∀ r ∈ order, r.attempt s.toList = .ok none) :
    readIn order s = .ok (.str s) := by
  induction order with
  | nil => rfl
  | cons r order ih =>
    rw [List.forall_mem_cons] at h
    rw [readIn_cons, h.1]
    exact ih h.2

/-- If a single reading takes a text, it decides wherever it stands. -/
theorem readIn_of_mem (hr : r ∈ order)
    (h : ∀ q ∈ order, q ≠ r → q.attempt s.toList = .ok none) :
    readIn order s = (r.attempt s.toList).map (·.getD (.str s)) := by
  induction order with
  | nil => cases hr
  | cons q order ih =>
    rw [List.forall_mem_cons] at h
    rw [readIn_cons]
    by_cases hq : q = r
    · subst hq
      rcases hattempt : q.attempt s.toList with b | ⟨_ | v⟩
      · rfl
      · -- Then no reading takes the text, neither this one nor those behind it.
        refine readIn_of_forall fun p hp => ?_
        by_cases hpq : p = q
        · rw [hpq, hattempt]
        · exact h.2 p hp hpq
      · rfl
    · rw [h.1 hq]
      exact ih ((List.mem_cons.1 hr).resolve_left (Ne.symm hq)) h.2

/-- What a text stands for depends on which readings are tried, but not on how often and in which
    order. -/
theorem readIn_congr (h : ∀ r, r ∈ order ↔ r ∈ order') : readIn order s = readIn order' s := by
  by_cases htaken : ∃ r ∈ order, r.attempt s.toList ≠ .ok none
  · obtain ⟨r, hr, htaken⟩ := htaken
    rw [readIn_of_mem hr fun q _ => Reading.attempt_eq_none_of_ne htaken,
      readIn_of_mem ((h r).1 hr) fun q _ => Reading.attempt_eq_none_of_ne htaken]
  · push Not at htaken
    rw [readIn_of_forall htaken, readIn_of_forall fun r hr => htaken r ((h r).2 hr)]

theorem readIn_eq_read (h : ∀ r, r ∈ order) : readIn order s = read s := by
  rw [read_eq_readIn]
  exact readIn_congr fun r => iff_of_true (h r) r.mem_all

/-- A text that is kept as it is has been taken by no reading. -/
theorem attempt_eq_none_of_read (h : read s = .ok (.str s)) (r : Reading) :
    r.attempt s.toList = .ok none := by
  by_contra htaken
  rw [read_eq_readIn, readIn_of_mem r.mem_all fun q _ => Reading.attempt_eq_none_of_ne htaken] at h
  obtain ⟨found, hfound, h⟩ := exists_of_map_eq_ok h
  cases found with
  | none => exact htaken hfound
  | some v => exact (Reading.gives_of_attempt hfound).ne_str s h

/-- Of the ways to read the text of a variable, at most one gives a value or fails, so that it does not
    matter in which order they are tried. A text stands for itself, with all its blanks, exactly if none
    of them does. -/
theorem at_most_one_reading (s : String) :
    (∀ r q : Reading, r.attempt s.toList ≠ .ok none → q.attempt s.toList ≠ .ok none → r = q) ∧
    (∀ order : List Reading, (∀ r, r ∈ order) → readIn order s = read s) ∧
    (read s = .ok (.str s) ↔ ∀ r : Reading, r.attempt s.toList = .ok none) := by
  refine ⟨fun r q hr hq => ?_, fun order => readIn_eq_read, attempt_eq_none_of_read, fun h => ?_⟩
  · by_contra hne
    exact hr (Reading.attempt_eq_none_of_ne hq hne)
  · rw [read_eq_readIn]
    exact readIn_of_forall fun r _ => h r

/-- A negative number in Arabic digits, with blanks around it, is an integer even if almost everything
    else is tried first. A separator beside a digit fails in every order, and an end marker between
    blanks is kept with them. -/
theorem at_most_one_reading_backwards :
    let backwards : List Reading := [.structured, .decimal, .integer, .truth]
    (∀ r : Reading, r ≠ .integer → r.attempt " -\u0664\u0662\t".toList = .ok none) ∧
      readIn backwards " -\u0664\u0662\t" = .ok (.int (-42)) ∧
      readIn backwards "\x1f7" = .error .badNumber ∧ read " )* " = .ok (.str " )* ") := by
  intro backwards
  have hall (r : Reading) : r ∈ backwards := by
    cases r <;> decide
  obtain ⟨hunique, hnumber, -⟩ := at_most_one_reading " -\u0664\u0662\t"
  have hint : Reading.integer.attempt " -\u0664\u0662\t".toList ≠ .ok none := by decide
  refine ⟨fun r hr => ?_, ?_, ?_, ?_⟩
  · by_contra htaken
    exact hr (hunique r .integer htaken hint)
  · rw [hnumber backwards hall]
    decide
  · rw [(at_most_one_reading "\x1f7").2.1 backwards hall]
    decide
  · exact (at_most_one_reading " )* ").2.2.2 fun r => by cases r <;> decide

end Coercion

end Stencil
