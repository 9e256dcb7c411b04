import Stencil.Identifier
import Stencil.Markers

/-!
# The layout of a text

How a pair of markers divides a text: characters that stand for themselves, and placeholders with
their bodies. A placeholder opens at the first start marker and closes at the first end marker after
that; only markers that lie in the text as a whole count. The layout depends on nothing but the text,
the markers and the mode. In strict mode a start marker inside an open placeholder is refused.

* `Layout.cutBody`: the body of an open placeholder and the text behind it;
* `Layout.ofText`: the layout of a text;
* `Layout.length_of_cutBody`: what is left behind a body is no longer than what was there before, so
  that the layout of every text is found.
-/

namespace Stencil

/-- The layout of a text. -/
inductive Layout
  /-- The end of the text. -/
  | done
  /-- A character that stands for itself. -/
  | literal (c : Char) (rest : Layout)
  /-- A placeholder with its body. -/
  | placeholder (body : List Char) (rest : Layout)
  /-- A placeholder that does not close. -/
  | broken (cause : Error)
  deriving Inhabited

namespace Layout

open Identifier (dropFront?)

/-- Whether a text has at least as many characters as a marker. -/
def fits : (marker text : List Char) → Bool
  | [], _ => true
  | _ :: _, [] => false
  | _ :: marker, _ :: text => fits marker text

/-- The body of a placeholder that was opened at `opened`, up to the first end marker in `text`,
    which starts at `position`, and the text behind that marker. -/
def cutBody (m : Markers) (strict : Bool) (opened : Nat) :
    (position : Nat) → (text : List Char) → Except Error (List Char × List Char)
  | position, text =>
    match dropFront? m.stop.toList text with
    | some rest => .ok ([], rest)
    | none =>
      -- Where no end marker fits any more, none will come, so a start marker
      -- there is not looked at.
      if !fits m.stop.toList text then .error (.unterminated opened m.stop)
      else if strict && (dropFront? m.start.toList text).isSome then
        .error (.nestedStart position m.start m.stop)
      else
        match text with
        | [] => .error (.unterminated opened m.stop)
        | c :: text => (cutBody m strict opened (position + 1) text).map fun p => (c :: p.1, p.2)
  termination_by _ text => text.length

theorem length_of_dropFront? {front text rest : List Char} (h : dropFront? front text = some rest) :
    text.length = front.length + rest.length := by
  induction front generalizing text with
  | nil => simp_all [dropFront?]
  | cons f front ih =>
    cases text with
    | nil => simp [dropFront?] at h
    | cons c text =>
      simp only [dropFront?] at h
      split at h
      · simp [ih h]; omega
      · simp at h

theorem length_of_cutBody {m : Markers} {strict : Bool} {opened position : Nat}
    {text body rest : List Char} (h : cutBody m strict opened position text = .ok (body, rest)) :
    rest.length ≤ text.length := by
  induction text generalizing position body with
  | nil =>
    -- Only an empty end marker could be found here, and it leaves nothing.
    unfold cutBody at h
    split at h
    · next r hr =>
      have := length_of_dropFront? hr
      simp only [Except.ok.injEq, Prod.mk.injEq] at h
      rw [← h.2]
      omega
    · simp at h
      split at h <;> (try split at h) <;> simp at h
  | cons c text ih =>
    -- The end marker stands here, or the text goes on behind a character of the
    -- body; in all other cases there is no body.
    unfold cutBody at h
    split at h
    · next r hr =>
      have := length_of_dropFront? hr
      simp only [Except.ok.injEq, Prod.mk.injEq] at h
      rw [← h.2]
      omega
    · split at h
      · simp at h
      · split at h
        · simp at h
        · simp only [Except.map] at h
          split at h
          · simp at h
          · next p hp =>
            obtain ⟨b, r⟩ := p
            simp only [Except.ok.injEq, Prod.mk.injEq] at h
            obtain ⟨-, rfl⟩ := h
            have := ih hp
            simp only [List.length_cons]
            omega

/-- The layout of a text whose first character is at `position`. -/
def ofText (m : Markers) (strict : Bool) (position : Nat) (text : List Char) : Layout :=
  match text with
  | [] => .done
  | c :: tail =>
    match hs : dropFront? m.start.toList (c :: tail) with
    | none => .literal c (ofText m strict (position + 1) tail)
    | some inner =>
      let start := position + m.start.length
      match _hc : cutBody m strict position start inner with
      | .error cause => .broken cause
      | .ok (body, rest) =>
        .placeholder body (ofText m strict (start + body.length + m.stop.length) rest)
  termination_by text.length
  decreasing_by
    · simp
    · -- A start marker is not empty, so what follows a placeholder is shorter.
      have h₁ := length_of_dropFront? hs
      have h₂ := length_of_cutBody _hc
      have h₃ : m.start.toList ≠ [] := by simpa using m.start_ne
      have h₄ := List.length_pos_iff.2 h₃
      simp only [List.length_cons] at h₁
      simp
      omega

end Layout

end Stencil
