import Mathlib.Algebra.Ring.Int.Defs
import Mathlib.Algebra.Ring.Nat
import Stencil.Background
import Stencil.Proofs.Failure

/-!
# Delivery

A scan in the background is meant to tell its outcome to exactly one callback, exactly once. It does
so with every result and with every failure that is reported. A body whose value has no text makes
the scan fail unreported, and then neither callback is told.

* `Task.ToldOnce`: what is meant to be delivered;
* `Request.run_cases`: the outcomes of a scan of inputs of any kind;
* `Task.toldOnce_iff`: the scans that are delivered as they are meant to be.
-/

namespace Stencil

open Layout (HasBody)

/-! ## Values without a text -/

/-- The integers without a text are those of more than `maxDigits` digits. -/
theorem Numeral.intText?_eq_none_iff {i : Int} :
    intText? i = none ↔ 10 ^ maxDigits ≤ i.natAbs := by
  have h : (natText i.natAbs).length ≤ maxDigits ↔ i.natAbs < 10 ^ maxDigits :=
    Nat.length_toDigits_le_iff (by decide) (by decide)
  rw [intText?, ite_eq_right_iff, h, ← Nat.not_lt]
  exact ⟨fun hn hi => (nomatch hn hi), fun hn hi => absurd hi hn⟩

theorem Numeral.eq_intText {i : Int} {t : String} (h : intText? i = some t) : t = intText i := by
  unfold intText? at h
  exact (Option.some.inj (Option.ite_none_right_eq_some.1 h).2).symm

/-- A body that is a name is without a text if the name is bound to an integer of too many
    digits. -/
theorem Unwritable.of_int {bindings : Mapping} {body : List Char} {i : Int}
    (hq : body.head? ≠ some '?') (hv : bindings.getStr? (String.ofList body) = some (.int i))
    (hi : 10 ^ Numeral.maxDigits ≤ i.natAbs) : Unwritable bindings body :=
  ⟨_, _, Identifier.parse_of_head?_ne hq, hv, nofun, Numeral.intText?_eq_none_iff.2 hi⟩

/-! ## Outcomes -/

/-- The inputs are of the right kinds, and the scan gets to a body whose value has no text. -/
def Request.Unwritten (r : Request) : Prop :=
  ∃ c p body, r.check = .ok c ∧ Opens c.markers c.strict c.bindings c.text.toList p ∧
    HasBody c.markers c.strict c.text.toList p body ∧ Unwritable c.bindings body

/-- A failure that tells that a template cannot be filled in. -/
def Error.InParse (e : Error) : Prop := .parse ∈ e.category.ancestors

instance (e : Error) : Decidable e.InParse :=
  inferInstanceAs (Decidable (.parse ∈ e.category.ancestors))

theorem Refused.inParse {m : Markers} {strict : Bool} {bindings : Mapping} {text : List Char}
    {p : Nat} {e : Error} (h : Refused m strict bindings text p e) : e.InParse := by
  cases h <;> simp [Error.InParse, Error.category, Category.ancestors]

namespace Request

variable {r : Request} {e : Error}

/-- The check of the inputs fails if some are absent or if one is of the wrong kind. -/
theorem check_eq_error (h : r.check = .error e) : (∃ fields, e = .missingInputs fields) ∨
    ∃ field expected found, e = .wrongKind field expected found := by
  obtain ⟨text, markers, bindings, strict⟩ := r
  rw [check] at h
  simp only [bind, Except.bind, pure, Except.pure] at h
  split at h
  · exact .inl ⟨_, (Except.error.inj h).symm⟩
  refine .inr ?_
  split at h
  · cases markers with
    | markers m =>
      dsimp only [MarkersInput.toMarkers] at h
      split at h
      · cases h
      · exact ⟨_, _, _, (Except.error.inj h).symm⟩
    | value v => exact ⟨_, _, _, (Except.error.inj h).symm⟩
  · exact ⟨_, _, _, (Except.error.inj h).symm⟩

theorem inParse_of_check (h : r.check = .error e) : e.InParse := by
  rcases check_eq_error h with ⟨fields, rfl⟩ | ⟨field, expected, found, rfl⟩
  · simp [Error.InParse, Error.category, Category.ancestors]
  · simp [Error.InParse, Error.category, Category.ancestors]

/-- A scan gives a text, or a failure that tells that the template cannot be filled in, or it gets to
    a body whose value has no text. -/
theorem run_cases (r : Request) : (∃ s, r.run.result = .ok s) ∨
    (∃ e, r.run.result = .error (.error e) ∧ e.InParse) ∨
      r.run.result = .error (.breach .longInteger) ∧ r.Unwritten := by
  cases hc : r.check with
  | error e =>
    refine .inr (.inl ⟨e, ?_, inParse_of_check hc⟩)
    rw [run, hc]
    rfl
  | ok c =>
    rw [result_run_of_check hc]
    cases hs : scan c.markers c.strict c.bindings c.text with
    | ok s => exact .inl ⟨s, rfl⟩
    | error f =>
      obtain ⟨p, hp, h⟩ := scanCounting_eq_error_iff.1 (scan_eq_error_iff.1 hs)
      rcases h with ⟨e, rfl, he⟩ | ⟨rfl, body, hb, hu⟩
      · exact .inr (.inl ⟨e, rfl, he.inParse⟩)
      · exact .inr (.inr ⟨rfl, c, p, body, hc, hp, hb, hu⟩)

theorem Unwritten.result_run (h : r.Unwritten) :
    r.run.result = .error (.breach .longInteger) := by
  obtain ⟨c, p, body, hc, hp, hb, hu⟩ := h
  rw [result_run_of_check hc, scan_eq_error_iff]
  exact scanCounting_of_stuck hp (.inr ⟨rfl, body, hb, hu⟩)

end Request

/-! ## Tasks -/

/-- What a future holds after an outcome was told to a callback: the outcome if the callback returned,
    and else the failure of the callback. -/
def Callback.Answers (c : Callback) (outcome future : Except Fault String) : Prop :=
  c = .returns ∧ future = outcome ∨ ∃ f, c = .fails f ∧ future = .error f

theorem Callback.answers_answer {c : Callback} (h : c.isCallable) (outcome : Except Fault String) :
    c.Answers outcome (c.answer outcome) := by
  cases c with
  | missing => cases h
  | idle => cases h
  | returns => exact .inl ⟨rfl, rfl⟩
  | fails f => exact .inr ⟨f, rfl, rfl⟩

namespace Task

variable {r : Request} {onDone onError : Callback} {t : Task}

/-- The result was told to the first callback and to no other, or the failure was told to the second
    one and to no other, once in either case. The future holds the same, unless the callback that was
    told failed. -/
def ToldOnce (t : Task) : Prop :=
  (∃ s, t.request.run.result = .ok s ∧ t.run.done = [s] ∧ t.run.errors = [] ∧
    t.onDone.Answers (.ok s) t.run.future) ∨
  ∃ f, t.request.run.result = .error f ∧ t.run.done = [] ∧ t.run.errors.map Fault.error = [f] ∧
    t.onError.Answers (.error f) t.run.future

theorem run_of_ok {s : String} (h : t.request.run.result = .ok s) :
    t.run = ⟨[s], [], t.onDone.answer (.ok s)⟩ := by
  rw [run, h]

theorem run_of_inParse {e : Error} (h : t.request.run.result = .error (.error e))
    (he : e.InParse) : t.run = ⟨[], [e], t.onError.answer (.error e)⟩ := by
  rw [run, h]
  exact if_pos he

/-- Of a failure that is not reported, the future alone tells. -/
theorem run_of_breach {b : Breach} (h : t.request.run.result = .error (.breach b)) :
    t.run = ⟨[], [], .error (.breach b)⟩ := by
  rw [run, h]

/-- A scan that gets to a body whose value has no text is told to no callback. -/
theorem not_toldOnce_of_unwritten (h : t.request.Unwritten) : ¬t.ToldOnce := by
  have hb := h.result_run
  rintro (⟨s, hs, -⟩ | ⟨f, -, -, he, -⟩)
  · rw [hb] at hs
    cases hs
  · rw [run_of_breach hb] at he
    cases he

/-- What is scheduled keeps its inputs, and both callbacks can be called. -/
theorem schedule_eq_ok (h : schedule r onDone onError = .ok t) :
    t.request = r ∧ t.onDone.isCallable ∧ t.onError.isCallable := by
  rw [schedule] at h
  split at h
  · cases h
  split at h
  · cases h
  · next hc =>
    cases h
    simpa using hc

/-- A scan that was scheduled tells its outcome to exactly one callback, exactly once, unless it gets
    to a body whose value has no text. -/
theorem toldOnce_iff (h : schedule r onDone onError = .ok t) : t.ToldOnce ↔ ¬r.Unwritten := by
  obtain ⟨rfl, hdone, herror⟩ := schedule_eq_ok h
  refine ⟨fun ht hu => not_toldOnce_of_unwritten hu ht, fun hu => ?_⟩
  rcases t.request.run_cases with ⟨s, hs⟩ | ⟨e, he, hp⟩ | ⟨-, h⟩
  · rw [ToldOnce, run_of_ok hs]
    exact .inl ⟨s, hs, rfl, rfl, Callback.answers_answer hdone _⟩
  · rw [ToldOnce, run_of_inParse he hp]
    exact .inr ⟨_, he, rfl, rfl, Callback.answers_answer herror _⟩
  · exact absurd h hu

/-- The failure of a scan is told to a callback that fails in turn. -/
theorem toldOnce_of_unbound :
    let r := Request.ofParts ⟨"*(", ")*", by decide, by decide⟩ false [(.str "a", .int 1)]
      "*(a)* *(b)*"
    let t : Task := ⟨r, .returns, .raises⟩
    schedule r .returns .raises = .ok t ∧ ¬r.Unwritten ∧ t.ToldOnce ∧
      t.run.errors = [.unbound "b"] ∧ t.run.future = .error (.breach .callback) := by
  intro r t
  have ht : schedule r .returns .raises = .ok t := rfl
  have hr : t.request.run.result = .error (.error (.unbound "b")) := by decide +kernel
  have hrun := run_of_inParse hr (by decide)
  have hu : ¬r.Unwritten := by
    intro hu
    rw [hu.result_run] at hr
    cases hr
  rw [hrun]
  exact ⟨ht, hu, (toldOnce_iff ht).2 hu, rfl, rfl⟩

/-- An integer of 4301 digits is bound to the one name of a text, and neither callback is told. -/
theorem not_toldOnce_of_long_integer :
    let r := Request.ofParts ⟨"*(", ")*", by decide, by decide⟩ false
      [(.str "n", .int (10 ^ Numeral.maxDigits))] "*(n)*"
    ∃ t, schedule r .returns .returns = .ok t ∧ t.run.done = [] ∧ t.run.errors = [] ∧
      ¬t.ToldOnce := by
  intro r
  have hb : HasBody ⟨"*(", ")*", by decide, by decide⟩ false "*(n)*".toList 0 ['n'] := by
    refine ⟨nofun, ⟨by decide, ?_⟩, by decide⟩
    rintro q ⟨hq, ho⟩
    rcases Nat.lt_or_eq_of_le hq with h | rfl
    · exact h
    · exact absurd ho (by decide)
  have hi (n : Nat) : 10 ^ n ≤ (10 ^ n : Int).natAbs := (Int.natAbs_pow 10 n).ge
  have hu : r.Unwritten := by
    refine ⟨_, 0, ['n'], Request.check_ofParts _ _ _ _, .of_start (by decide), hb, ?_⟩
    exact .of_int (by decide) rfl (hi Numeral.maxDigits)
  refine ⟨⟨r, .returns, .returns⟩, rfl, ?_, ?_, not_toldOnce_of_unwritten hu⟩ <;>
    rw [run_of_breach hu.result_run]

end Task

end Stencil
