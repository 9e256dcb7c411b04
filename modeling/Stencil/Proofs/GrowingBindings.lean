import Mathlib.Data.Finset.Card
import Stencil.Proofs.Failure
import Stencil.Value.Path

/-!
# Bindings that grow

A scan fails for want of a binding at one name, and binding that name repairs it for good. More
bindings never spoil a scan: a result stays one, though another one perhaps, and a failure that is not
for want of a binding stays the same. So the text can be repaired in rounds: scan it, bind the name
that is reported, and scan again.

* `Grows`: a table has a value for every name that another one has a value for;
* `scan_eq_error_grow`, `exists_scan_eq_ok_grow`: what a scan gives under a table that has grown;
* `repaired`: the table after some rounds of repair;
* `exists_reported?_eq_none`: repair ends, as every round that reports a name uses up one of those
  that the text asks for;
* `run_monotone_and_repairable`: all of this for requests.
-/

namespace Stencil

open Layout (HasBody)

/-! ## Tables that grow -/

/-- Every name with a value in `bindings` has one in `bindings'`. -/
def Grows (bindings bindings' : Mapping) : Prop :=
  ∀ n, Unbound bindings' n → Unbound bindings n

/-- Two outcomes are both results, or they are the same failure. -/
def Alike (x y : Except Fault String) : Prop :=
  (∃ s t, x = .ok s ∧ y = .ok t) ∨ ∃ f, x = .error f ∧ y = .error f

variable {m : Markers} {strict : Bool} {bindings bindings' : Mapping} {text : List Char}
  {body : List Char} {p : Nat} {n : String}

/-- A body with a value keeps one, though perhaps another one. -/
theorem Resolves.grow {v : String} (hb : OfTexts bindings') (hg : Grows bindings bindings')
    (h : Resolves bindings body v) : ∃ v', Resolves bindings' body v' := by
  rcases resolveBody_cases bindings' body with hv | ⟨flaw, hp⟩ | ⟨hq, hu⟩ | hu
  · exact hv
  · obtain ⟨i, hi, -⟩ := h
    rw [hp] at hi
    cases hi
  · have hr := resolveBody_of_resolves h
    rw [resolveBody_of_unbound hq (hg _ hu)] at hr
    cases hr
  · exact absurd hu hb.not_unwritable

/-- A scan that gets to a placeholder still gets there. -/
theorem Opens.grow (hb : OfTexts bindings') (hg : Grows bindings bindings')
    (h : Opens m strict bindings text p) : Opens m strict bindings' text p := by
  obtain ⟨d, hd, hv, hp, ho⟩ := h
  refine ⟨d, hd, fun q hq => ?_, hp, ho⟩
  obtain ⟨v, hv⟩ := hv q hq
  exact hv.grow hb hg

/-- A placeholder that is refused is refused alike, unless it was for a name that has a value now. -/
theorem Refused.grow {e : Error} (h : Refused m strict bindings text p e)
    (he : ∀ n, e = .unbound n → Unbound bindings' n) : Refused m strict bindings' text p e := by
  cases h with
  | nested hs hq => exact .nested hs hq
  | unterminated hn hstop => exact .unterminated hn hstop
  | missingDefault hb hp => exact .missingDefault hb hp
  | unbound hb hq _ => exact .unbound hb hq (he _ rfl)

theorem Division.HasValues.grow {d : Division} {values : List String} (hb : OfTexts bindings')
    (hg : Grows bindings bindings') (h : d.HasValues bindings values) :
    ∃ values', d.HasValues bindings' values' := by
  obtain ⟨ps, last⟩ := d
  dsimp only [HasValues] at h ⊢
  induction h with
  | nil => exact ⟨[], .nil⟩
  | cons hv _ ih =>
    obtain ⟨v', hv'⟩ := hv.grow hb hg
    obtain ⟨values', ih⟩ := ih
    exact ⟨v' :: values', .cons hv' ih⟩

section Scans

variable {text : String}

/-- A scan that gives a text still gives one. -/
theorem exists_scan_eq_ok_grow {out : String} (hb : OfTexts bindings')
    (hg : Grows bindings bindings') (h : scan m strict bindings text = .ok out) :
    ∃ out', scan m strict bindings' text = .ok out' := by
  obtain ⟨n, h⟩ := scan_eq_ok_iff.1 h
  obtain ⟨d, hd, htext, values, hv, -, -⟩ := scanCounting_eq_ok_iff.1 h
  obtain ⟨values', hv'⟩ := hv.grow hb hg
  exact ⟨_, scan_eq_ok_iff.2 ⟨_, scanCounting_of_lies hd htext hv'⟩⟩

/-- With a table of texts all failures of a scan are reported. -/
theorem exists_refused_of_scan_eq_error {f : Fault} (hb : OfTexts bindings)
    (h : scan m strict bindings text = .error f) :
    ∃ p e, f = .error e ∧ Opens m strict bindings text.toList p ∧
      Refused m strict bindings text.toList p e := by
  obtain ⟨p, hp, hf⟩ := scanCounting_eq_error_iff.1 (scan_eq_error_iff.1 h)
  rcases hf with ⟨e, rfl, he⟩ | ⟨-, body, -, hu⟩
  · exact ⟨p, e, rfl, hp, he⟩
  · exact absurd hu hb.not_unwritable

/-- A scan that fails still fails alike, unless it was for a name that has a value now. -/
theorem scan_eq_error_grow {f : Fault} (hb : OfTexts bindings) (hb' : OfTexts bindings')
    (hg : Grows bindings bindings') (h : scan m strict bindings text = .error f)
    (hf : ∀ n, f = .error (.unbound n) → Unbound bindings' n) :
    scan m strict bindings' text = .error f := by
  obtain ⟨p, e, rfl, hp, he⟩ := exists_refused_of_scan_eq_error hb h
  have he' := he.grow fun n hn => hf n (congrArg _ hn)
  exact scan_eq_refused_iff.2 ⟨p, hp.grow hb' hg, he'⟩

/-- A name that is reported as unbound has no value. -/
theorem unbound_of_scan_eq_error (h : scan m strict bindings text = .error (.error (.unbound n))) :
    Unbound bindings n := by
  obtain ⟨p, -, hr⟩ := scan_eq_refused_iff.1 h
  cases hr with
  | unbound _ _ hu => exact hu

/-- Two tables that have values for the same names make a scan end alike. -/
theorem scan_alike (hb : OfTexts bindings) (hb' : OfTexts bindings')
    (h : ∀ n, Unbound bindings n ↔ Unbound bindings' n) :
    Alike (scan m strict bindings text) (scan m strict bindings' text) := by
  have hg : Grows bindings bindings' := fun n => (h n).2
  cases hs : scan m strict bindings text with
  | ok out =>
    obtain ⟨out', hs'⟩ := exists_scan_eq_ok_grow hb' hg hs
    exact .inl ⟨out, out', rfl, hs'⟩
  | error f =>
    refine .inr ⟨f, rfl, scan_eq_error_grow hb hb' hg hs ?_⟩
    rintro n rfl
    exact (h n).1 (unbound_of_scan_eq_error hs)

end Scans

/-! ## Names that a text asks for -/

/-- The name that a body asks for, if it has no default. -/
def askedName? (body : List Char) : Option String :=
  match Identifier.parse body with
  | .ok (.mandatory n) => some n
  | _ => none

/-- The names that the placeholders of a text ask for without a default, in their order. -/
def askedNames (m : Markers) (strict : Bool) (text : String) : List String :=
  (Layout.ofText m strict 0 text.toList).bodies.filterMap askedName?

theorem Layout.bodies_literals (l : List Char) (rest : Layout) :
    (l.foldr .literal rest).bodies = rest.bodies := by
  induction l with
  | nil => rfl
  | cons c l ih => exact ih

theorem Division.bodies_layout (d : Division) (rest : Layout) :
    (d.layout rest).bodies = d.parts.map Part.body ++ rest.bodies := by
  obtain ⟨ps, last⟩ := d
  induction ps with
  | nil => exact Layout.bodies_literals last rest
  | cons p ps ih =>
    have hstep : layout ⟨p :: ps, last⟩ rest =
        p.literal.foldr .literal (.placeholder p.body (layout ⟨ps, last⟩ rest)) := rfl
    rw [hstep, Layout.bodies_literals, Layout.bodies, ih]
    rfl

/-- The body of a placeholder that a scan gets to is one of those of the text. -/
theorem Opens.mem_bodies (h : Opens m strict bindings text p) (hb : HasBody m strict text p body) :
    body ∈ (Layout.ofText m strict 0 text).bodies := by
  obtain ⟨d, hd, -, rfl, ho⟩ := h
  have hl := d.ofText_of_lies hd
  rw [List.drop_zero, Nat.zero_add, Layout.ofText_of_occursAt ho, hb.cutBody_eq] at hl
  rw [hl, Division.bodies_layout]
  exact List.mem_append_right _ List.mem_cons_self

/-- A name that is reported as unbound is one that the text asks for. -/
theorem mem_askedNames_of_scan_eq_error {text : String}
    (h : scan m strict bindings text = .error (.error (.unbound n))) :
    n ∈ askedNames m strict text := by
  obtain ⟨p, hp, hr⟩ := scan_eq_refused_iff.1 h
  cases hr with
  | unbound hb hq _ =>
    refine List.mem_filterMap.2 ⟨_, hp.mem_bodies hb, ?_⟩
    rw [askedName?, Identifier.parse_of_head?_ne hq]

/-! ## Repair -/

/-- The name that a scan reports as unbound, if it reports one. -/
def reported? (m : Markers) (strict : Bool) (bindings : Mapping) (text : String) : Option String :=
  match (Request.ofParts m strict bindings text).run.result with
  | .error (.error (.unbound n)) => some n
  | _ => none

/-- The table after some rounds of repair. In a round the text is scanned, and the name that is
    reported, if there is one, is bound to the string that is chosen in that round. -/
def repaired (m : Markers) (strict : Bool) (bindings : Mapping) (text : String)
    (chosen : Nat → String) : Nat → Mapping
  | 0 => bindings
  | k + 1 =>
    let table := repaired m strict bindings text chosen k
    match reported? m strict table text with
    | some n => table.putStr n (.str (chosen k))
    | none => table

theorem unbound_putStr_iff {s : String} {n' : String} :
    Unbound (bindings.putStr n (.str s)) n' ↔ n ≠ n' ∧ Unbound bindings n' := by
  by_cases hn : n = n'
  · subst hn
    simp [Unbound, Mapping.getStr?_putStr_self]
  · simp [Unbound, Mapping.getStr?_putStr_of_ne hn, hn]

theorem OfTexts.putStr (hb : OfTexts bindings) (n s : String) :
    OfTexts (bindings.putStr n (.str s)) := by
  intro e he
  rcases Mapping.eq_of_mem_put he with he | rfl | ⟨e', -, rfl⟩
  · exact hb e he
  · exact .inr ⟨s, rfl⟩
  · exact .inr ⟨s, rfl⟩

section Repair

variable {text : String} {chosen chosen' : Nat → String} {i j k : Nat}

theorem reported?_eq_some_iff : reported? m strict bindings text = some n ↔
    scan m strict bindings text = .error (.error (.unbound n)) := by
  rw [reported?, Request.result_run_ofParts]
  split
  · next h => simp [h]
  · next h => simpa using h n

theorem ofTexts_repaired (hb : OfTexts bindings) (k : Nat) :
    OfTexts (repaired m strict bindings text chosen k) := by
  induction k with
  | zero => exact hb
  | succ k ih =>
    rw [repaired]
    split
    · exact ih.putStr _ _
    · exact ih

/-- A round binds the name that is reported and nothing else, whatever string is chosen. -/
theorem unbound_repaired_succ_iff : Unbound (repaired m strict bindings text chosen (k + 1)) n ↔
    reported? m strict (repaired m strict bindings text chosen k) text ≠ some n ∧
      Unbound (repaired m strict bindings text chosen k) n := by
  rw [repaired]
  split
  · next n' h => rw [unbound_putStr_iff, h, ne_eq, ne_eq, Option.some.injEq]
  · next h => simp [h]

/-- A name that was reported in a round has a value in all later ones. -/
theorem not_unbound_repaired (hij : i < j)
    (h : reported? m strict (repaired m strict bindings text chosen i) text = some n) :
    ¬Unbound (repaired m strict bindings text chosen j) n := by
  induction j, hij using Nat.le_induction with
  | base => rw [unbound_repaired_succ_iff]; exact fun hu => hu.1 h
  | succ j _ ih => rw [unbound_repaired_succ_iff]; exact fun hu => ih hu.2

/-- No name is reported in two rounds. -/
theorem reported?_repaired_ne (hij : i < j)
    (h : reported? m strict (repaired m strict bindings text chosen i) text = some n) :
    reported? m strict (repaired m strict bindings text chosen j) text ≠ some n := fun h' =>
  not_unbound_repaired hij h (unbound_of_scan_eq_error (reported?_eq_some_iff.1 h'))

/-- As each name is reported once and all are names that the text asks for, some round reports
    none. -/
theorem exists_reported?_eq_none (m : Markers) (strict : Bool) (bindings : Mapping) (text : String)
    (chosen : Nat → String) : ∃ k ≤ (askedNames m strict text).toFinset.card,
      reported? m strict (repaired m strict bindings text chosen k) text = none := by
  by_contra hall
  push Not at hall
  choose! name hname using fun k hk => Option.ne_none_iff_exists'.1 (hall k hk)
  have hinj : Set.InjOn name (Finset.range ((askedNames m strict text).toFinset.card + 1)) := by
    intro i hi j hj hij
    rw [Finset.coe_range, Set.mem_Iio, Nat.lt_succ_iff] at hi hj
    rcases lt_trichotomy i j with hlt | heq | hlt
    · exact absurd (hij ▸ hname j hj) (reported?_repaired_ne hlt (hname i hi))
    · exact heq
    · exact absurd (hij ▸ hname i hi) (reported?_repaired_ne hlt (hname j hj))
  have hmaps : ∀ k ∈ Finset.range ((askedNames m strict text).toFinset.card + 1),
      name k ∈ (askedNames m strict text).toFinset := by
    intro k hk
    rw [Finset.mem_range, Nat.lt_succ_iff] at hk
    exact List.mem_toFinset.2
      (mem_askedNames_of_scan_eq_error (reported?_eq_some_iff.1 (hname k hk)))
  have hcard := Finset.card_le_card_of_injOn name hmaps hinj
  rw [Finset.card_range] at hcard
  omega

/-- Which names have values after some rounds does not depend on the strings that are chosen. -/
theorem unbound_repaired_congr (hb : OfTexts bindings) (chosen chosen' : Nat → String) (k : Nat)
    (n : String) : Unbound (repaired m strict bindings text chosen k) n ↔
      Unbound (repaired m strict bindings text chosen' k) n := by
  induction k generalizing n with
  | zero => rfl
  | succ k ih =>
    have halike : Alike (scan m strict (repaired m strict bindings text chosen k) text)
        (scan m strict (repaired m strict bindings text chosen' k) text) :=
      scan_alike (ofTexts_repaired hb k) (ofTexts_repaired hb k) ih
    rw [unbound_repaired_succ_iff, unbound_repaired_succ_iff, ih, ne_eq, ne_eq,
      reported?_eq_some_iff, reported?_eq_some_iff]
    rcases halike with ⟨s, t, hs, ht⟩ | ⟨f, hs, ht⟩
    · rw [hs, ht]
      simp
    · rw [hs, ht]

/-- The outcome after some rounds does not depend on the strings that are chosen, apart from where
    they stand in a result. -/
theorem scan_repaired_alike (hb : OfTexts bindings) (chosen chosen' : Nat → String) (k : Nat) :
    Alike (scan m strict (repaired m strict bindings text chosen k) text)
      (scan m strict (repaired m strict bindings text chosen' k) text) :=
  scan_alike (ofTexts_repaired hb k) (ofTexts_repaired hb k)
    (unbound_repaired_congr hb chosen chosen' k)

end Repair

/-- More bindings keep a result a result, and they keep every failure that is not for want of a
    binding. A name that is reported as unbound is unbound, and is not reported once it is bound to a
    string. So repair in rounds reports no name twice and gets to a round that reports none after as
    many rounds as the text asks for different names, or fewer. How it ends does not depend on the
    strings that are chosen. -/
theorem run_monotone_and_repairable (m : Markers) (strict : Bool) {bindings : Mapping}
    (hb : OfTexts bindings) (text : String) :
    (∀ bindings', OfTexts bindings' → Grows bindings bindings' →
      (∀ out, (Request.ofParts m strict bindings text).run.result = .ok out →
        ∃ out', (Request.ofParts m strict bindings' text).run.result = .ok out') ∧
      ∀ f, (Request.ofParts m strict bindings text).run.result = .error f →
        (∀ n, f ≠ .error (.unbound n)) →
          (Request.ofParts m strict bindings' text).run.result = .error f) ∧
    (∀ n, (Request.ofParts m strict bindings text).run.result = .error (.error (.unbound n)) →
      Unbound bindings n ∧ ∀ (bindings' : Mapping) (s : String), bindings'.getStr? n = some (.str s) →
        (Request.ofParts m strict bindings' text).run.result ≠ .error (.error (.unbound n))) ∧
    ∀ chosen : Nat → String,
      (∀ i j n, i < j →
        reported? m strict (repaired m strict bindings text chosen i) text = some n →
          reported? m strict (repaired m strict bindings text chosen j) text ≠ some n) ∧
      (∃ k ≤ (askedNames m strict text).toFinset.card,
        reported? m strict (repaired m strict bindings text chosen k) text = none) ∧
      ∀ (chosen' : Nat → String) (k : Nat),
        Alike (Request.ofParts m strict (repaired m strict bindings text chosen k) text).run.result
          (Request.ofParts m strict (repaired m strict bindings text chosen' k) text).run.result := by
  simp only [Request.result_run_ofParts]
  refine ⟨fun bindings' hb' hg => ⟨fun out h => exists_scan_eq_ok_grow hb' hg h, fun f h hf => ?_⟩,
    fun n h => ⟨unbound_of_scan_eq_error h, fun bindings' s hs h' => ?_⟩, fun chosen => ?_⟩
  · exact scan_eq_error_grow hb hb' hg h fun n hn => absurd hn (hf n)
  · have hu := unbound_of_scan_eq_error h'
    simp [Unbound, hs] at hu
  · exact ⟨fun i j n hij h => reported?_repaired_ne hij h,
      exists_reported?_eq_none m strict bindings text chosen, scan_repaired_alike hb chosen⟩

/-- Whatever string is chosen for the name that is reported, the next failure is the one that no
    binding repairs. -/
theorem repair_gets_to_missing_default :
    let m : Markers := ⟨"*(", ")*", by decide, by decide⟩
    let bindings : Mapping := [(.str "b", .str "1")]
    let text := "*(a)*-*(b)*-*(?c)*-*(a)*"
    OfTexts bindings ∧ askedNames m false text = ["a", "b", "a"] ∧
      reported? m false bindings text = some "a" ∧
      ∀ chosen : Nat → String,
        (Request.ofParts m false (repaired m false bindings text chosen 1) text).run.result =
          .error (.error (.missingDefault .noParameters "?c")) := by
  intro m bindings text
  have hb : OfTexts bindings := by decide
  refine ⟨hb, by decide +kernel, by decide +kernel, fun chosen => ?_⟩
  let empty : Nat → String := fun _ => ""
  have hempty : (Request.ofParts m false (repaired m false bindings text empty 1) text).run.result =
      .error (.error (.missingDefault .noParameters "?c")) := by decide +kernel
  rcases ((run_monotone_and_repairable m false hb text).2.2 chosen).2.2 empty 1 with
    ⟨s, t, -, ht⟩ | ⟨f, hf, ht⟩
  · rw [hempty] at ht
    cases ht
  · rw [hempty] at ht
    cases ht
    exact hf

end Stencil
