import Stencil.Proofs.Failure

/-!
# Texts as they are

A scan gives its text as it can be shown. The text as it is differs from that in the surrogates of bound
values alone: everything is found, replaced and refused in the same way.

* `scan_eq_map_shown`: what a scan gives, told by the text as it is;
* `scanText_eq_map_whole`: where no name is bound to a ragged text, the two are the same;
* `Checked.result_runText`: the result of a run that keeps the surrogates.
-/

namespace Stencil

variable (bindings : Mapping)

/-! ## Showing what is there -/

theorem Identifier.resolve_eq_map_shown (i : Identifier) :
    i.resolve bindings = (i.resolveText bindings).map CodeText.shown := by
  unfold resolveText
  split
  · next t ht => exact resolve_of_getStr? ht nofun
  · cases i.resolve bindings <;> rfl

theorem resolveBody_eq_map_shown (body : List Char) :
    resolveBody bindings body = (resolveCodes bindings body).map (List.map CodePoint.shown) := by
  rw [resolveBody, resolveCodes]
  cases Identifier.parse body with
  | error e => rfl
  | ok i =>
    dsimp only
    rw [i.resolve_eq_map_shown]
    cases i.resolveText bindings with
    | error f => rfl
    | ok t => exact congrArg Except.ok t.toList_shown

/-- A layout is filled in code point by code point. -/
theorem Layout.fill_eq_map_shown (l : Layout) : (l.fill bindings).map (·.1) =
    (l.codes bindings).map (List.map CodePoint.shown) := by
  induction l with
  | done => rfl
  | broken cause => rfl
  | literal c rest ih =>
    rw [fill, codes]
    revert ih
    cases rest.fill bindings <;> cases rest.codes bindings <;> simp [Except.map]
  | placeholder body rest ih =>
    rw [fill, codes, resolveBody_eq_map_shown]
    cases resolveCodes bindings body with
    | error f => rfl
    | ok value =>
      -- Behind the value both go on with the same rest.
      revert ih
      cases rest.fill bindings <;> cases rest.codes bindings <;>
        simp [Except.map, bind, Except.bind, pure, Except.pure]

/-- A scan gives the text as it can be shown. -/
theorem scan_eq_map_shown (m : Markers) (strict : Bool) (text : String) :
    scan m strict bindings text = (scanText m strict bindings text).map CodeText.shown := by
  have hfill := (Layout.ofText m strict 0 text.toList).fill_eq_map_shown bindings
  rw [scan, scanCounting, scanText]
  revert hfill
  cases (Layout.ofText m strict 0 text.toList).fill bindings <;>
    cases (Layout.ofText m strict 0 text.toList).codes bindings <;>
    simp [Except.map, CodeText.shown_ofCodes]
  exact congrArg String.ofList

/-- A run that keeps the surrogates comes to the text as it is. -/
theorem Checked.result_runText (c : Checked) :
    c.runText.result = scanText c.markers c.strict c.bindings c.text := by
  rw [runText, Logged.result_bind, result_run, scan_eq_map_shown]
  cases scanText c.markers c.strict c.bindings c.text <;> rfl

/-! ## Bindings without surrogates -/

section Whole

variable {bindings} (h : ∀ name t, bindings.getStr? name ≠ some (.ragged t))

include h

theorem resolveCodes_of_whole (body : List Char) :
    resolveCodes bindings body = (resolveBody bindings body).map (List.map CodePoint.char) := by
  rw [resolveBody, resolveCodes]
  cases Identifier.parse body with
  | error e => rfl
  | ok i =>
    dsimp only
    rw [Identifier.resolveText]
    split
    · next t ht => exact absurd ht (h i.name t)
    · cases i.resolve bindings <;> rfl

theorem Layout.codes_of_whole (l : Layout) :
    l.codes bindings = (l.fill bindings).map fun p => p.1.map .char := by
  induction l with
  | done => rfl
  | broken cause => rfl
  | literal c rest ih =>
    rw [fill, codes, ih]
    cases rest.fill bindings <;> rfl
  | placeholder body rest ih =>
    rw [fill, codes, ih, resolveCodes_of_whole h]
    cases resolveBody bindings body with
    | error f => rfl
    | ok value =>
      cases rest.fill bindings with
      | error f => rfl
      | ok p => exact congrArg Except.ok List.map_append.symm

/-- Where no name is bound to a ragged text, a text is shown as it is. -/
theorem scanText_eq_map_whole (m : Markers) (strict : Bool) (text : String) :
    scanText m strict bindings text = (scan m strict bindings text).map .whole := by
  rw [scan, scanCounting, scanText, Layout.codes_of_whole h]
  cases (Layout.ofText m strict 0 text.toList).fill bindings with
  | error f => rfl
  | ok p => exact congrArg Except.ok (CodeText.ofCodes_map_char p.1)

end Whole

end Stencil
