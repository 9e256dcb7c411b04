import Mathlib.Data.List.Forall2
import Stencil.Proofs.Division
import Stencil.Scan

/-!
# Filling a division in

What a scan gives is told by the division of its text: the literals stay, and every body is replaced
by the value of its identifier.

* `Resolves`: the value that a body is replaced by;
* `Division.fill_layout`: filling in the layout of a division whose bodies all have values;
* `scanCounting_of_lies`: a scan of a text that is divided up to its end.
-/

namespace Stencil

/-- A body is the text of an identifier that resolves to a value. -/
def Resolves (bindings : Mapping) (body : List Char) (value : String) : Prop :=
  ∃ i, Identifier.parse body = .ok i ∧ i.resolve bindings = .ok value

variable {bindings : Mapping} {body : List Char} {value : String}

theorem resolveBody_of_resolves (h : Resolves bindings body value) :
    resolveBody bindings body = .ok value.toList := by
  obtain ⟨i, hi, hv⟩ := h
  rw [resolveBody, hi]
  dsimp only
  rw [hv]
  rfl

/-! ## Requests -/

/-- The request to fill a text in, with all inputs of the right kinds. -/
def Request.ofParts (m : Markers) (strict : Bool) (bindings : Mapping) (text : String) : Request :=
  ⟨.str text, .markers m, .map bindings, .bool strict⟩

theorem Request.check_ofParts (m : Markers) (strict : Bool) (bindings : Mapping) (text : String) :
    (ofParts m strict bindings text).check = .ok ⟨text, m, bindings, strict⟩ := by
  simp [ofParts, check, missing, MarkersInput.isMissing, MarkersInput.toMarkers, Value.truth, bind,
    Except.bind, pure, Except.pure]

/-- The scan gives the result of a run, which also writes a log. -/
theorem Checked.result_run (c : Checked) :
    c.run.result = scan c.markers c.strict c.bindings c.text := by
  cases h : scanCounting c.markers c.strict c.bindings c.text with
  | error f => simp [run, scan, h, Logged.write, Logged.ofExcept, bind, Except.map]
  | ok p => simp [run, scan, h, Logged.write, Logged.ofExcept, bind, pure, Except.map]

/-- The scan gives the result of a request that passes the check of its inputs. -/
theorem Request.result_run_of_check {r : Request} {c : Checked} (h : r.check = .ok c) :
    r.run.result = scan c.markers c.strict c.bindings c.text := by
  rw [run, h]
  exact c.result_run

theorem Request.result_run_ofParts (m : Markers) (strict : Bool) (bindings : Mapping)
    (text : String) :
    (ofParts m strict bindings text).run.result = scan m strict bindings text :=
  result_run_of_check (check_ofParts m strict bindings text)

/-! ## Layouts and divisions -/

namespace Layout

theorem fill_literals (l : List Char) (rest : Layout) :
    (l.foldr .literal rest).fill bindings =
      (rest.fill bindings).map fun p => (l ++ p.1, p.2) := by
  induction l with
  | nil => cases h : rest.fill bindings <;> simp [h, Except.map]
  | cons c l ih =>
    rw [List.foldr_cons, fill, ih]
    cases rest.fill bindings <;> rfl

theorem fill_placeholder (h : Resolves bindings body value) (rest : Layout) :
    (placeholder body rest).fill bindings =
      (rest.fill bindings).map fun p => (value.toList ++ p.1, p.2 + 1) := by
  rw [fill, resolveBody_of_resolves h]
  cases rest.fill bindings <;> rfl

end Layout

namespace Division

/-- The values of the bodies of a division, in their order. -/
def HasValues (bindings : Mapping) (d : Division) (values : List String) : Prop :=
  List.Forall₂ (fun p v => Resolves bindings p.body v) d.parts values

/-- A division with values in place of its placeholders. -/
def filled (d : Division) (values : List String) : List Char :=
  (List.zipWith (fun p v => p.literal ++ v.toList) d.parts values).flatten ++ d.last

variable {m : Markers} {strict : Bool} {text : List Char} {d : Division} {values : List String}

/-- The layout of a division is filled in with the values of its bodies. -/
theorem fill_layout (h : d.HasValues bindings values) (rest : Layout) : (d.layout rest).fill bindings =
      (rest.fill bindings).map fun p => (d.filled values ++ p.1, p.2 + d.parts.length) := by
  obtain ⟨ps, last⟩ := d
  dsimp only [HasValues] at h
  induction h with
  | nil => exact Layout.fill_literals last rest
  | @cons p v ps values hv _ ih =>
    have hstep : layout ⟨p :: ps, last⟩ rest =
        p.literal.foldr .literal (.placeholder p.body (layout ⟨ps, last⟩ rest)) := rfl
    rw [hstep, Layout.fill_literals, Layout.fill_placeholder hv, ih]
    cases rest.fill bindings with
    | error f => rfl
    | ok x => simp [Except.map, filled, Nat.add_assoc]

/-- Bodies that all have values have them in a row. -/
theorem exists_hasValues (h : ∀ p ∈ d.parts, ∃ v, Resolves bindings p.body v) :
    ∃ values, d.HasValues bindings values := by
  obtain ⟨ps, last⟩ := d
  induction ps with
  | nil => exact ⟨[], .nil⟩
  | cons p ps ih =>
    obtain ⟨⟨v, hv⟩, hps⟩ := List.forall_mem_cons.1 h
    obtain ⟨vs, hvs⟩ := ih hps
    exact ⟨v :: vs, .cons hv hvs⟩

/-- The scan of a text goes on behind a division of its beginning. -/
theorem fill_ofText_of_lies (hd : d.Lies m strict text 0)
    (hv : d.HasValues bindings values) :
    (Layout.ofText m strict 0 text).fill bindings =
      ((Layout.ofText m strict (d.written m).length (text.drop (d.written m).length)).fill
        bindings).map fun p => (d.filled values ++ p.1, p.2 + d.parts.length) := by
  have h := ofText_of_lies hd
  rw [List.drop_zero, Nat.zero_add] at h
  rw [h, fill_layout hv]

end Division

/-- A text that is divided up to its end is filled in with the values of its bodies. -/
theorem scanCounting_of_lies {m : Markers} {strict : Bool} {text : String} {d : Division}
    {values : List String} (hd : d.Lies m strict text.toList 0) (htext : d.written m = text.toList)
    (hv : d.HasValues bindings values) :
    scanCounting m strict bindings text =
      .ok (String.ofList (d.filled values), d.parts.length) := by
  rw [scanCounting, Division.fill_ofText_of_lies hd hv, htext, List.drop_length,
    Layout.ofText_nil, Layout.fill]
  simp [Except.map]

end Stencil
