import Stencil.Proofs.GrowingBindings
import Stencil.Proofs.WrittenDefault

/-!
# Texts that were filled in

A text that was filled in can be scanned again without any change, if no value has a character of the
start marker and none is empty. No start marker stands in a literal, and none comes about where
literals and values meet: between any two literals there is a value, which a start marker would have
to hold a character of.

* `isInfix_append_cases`: a text stands on one side of what it shares no character with;
* `Division.Lies.not_isInfix_filled`: no start marker stands in a division that was filled in;
* `scanCounting_of_not_isInfix`: a text without start markers is left as it is;
* `run_filled`: what a scan gives is left as it is by every further scan.
-/

namespace Stencil

/-- A text that stands in two texts with another one between them, which is not empty and shares no
    character with it, stands in one of the two. -/
theorem isInfix_append_cases {α : Type} {l a v b : List α} (hv : v ≠ [])
    (hl : ∀ x ∈ v, x ∉ l) (h : l <:+: a ++ (v ++ b)) : l <:+: a ∨ l <:+: b := by
  have hbehind (w : List α) (hw : ∀ x ∈ w, x ∉ l) (h : l <:+: w ++ b) : l <:+: b := by
    induction w with
    | nil => exact h
    | cons x w ih =>
      rw [List.forall_mem_cons] at hw
      rcases List.infix_cons_iff.1 h with h | h
      · rcases List.prefix_cons_iff.1 h with rfl | ⟨t, rfl, -⟩
        · exact List.nil_infix
        · exact absurd List.mem_cons_self hw.1
      · exact ih hw.2 h
  induction a with
  | nil => exact .inr (hbehind v hl h)
  | cons x a ih =>
    rcases List.infix_cons_iff.1 h with h | h
    · -- What begins in front ends before the value does.
      rcases isPrefix_append_cases (a := x :: a) h with h | ⟨w, hw, rfl⟩
      · exact .inl h.isInfix
      · obtain ⟨y, v, rfl⟩ := List.exists_cons_of_ne_nil hv
        rcases List.prefix_cons_iff.1 hw with rfl | ⟨t, rfl, -⟩
        · rw [List.append_nil]
          exact .inl List.infix_rfl
        · exact absurd (by simp) (hl y List.mem_cons_self)
    · exact (ih h).imp_left fun h => h.trans (List.suffix_cons x a).isInfix

variable {m : Markers} {strict : Bool} {bindings : Mapping} {text : List Char} {a : Nat}

/-! ## Literals and values -/

/-- No start marker stands in a literal. -/
theorem Division.Lies.not_isInfix_literal {l : List Char} (h : Division.Lies m strict text a ⟨[], l⟩) :
    ¬m.start.toList <:+: l := by
  rw [isInfix_iff_exists_occursAt]
  rintro ⟨k, hk⟩
  obtain ⟨⟨rest, hrest⟩, hfree⟩ := Division.lies_nil_iff.1 h
  have hlen := hk.add_length_le (Layout.start_ne_nil m)
  have hpos := List.length_pos_iff.2 (Layout.start_ne_nil m)
  refine hfree (a + k) (Nat.le_add_right a k) (by omega) ?_
  rw [OccursAt, ← List.drop_drop, ← hrest]
  exact isPrefix_drop_append hk

/-- A value that keeps start markers away: it is not empty, and it has no character of them. -/
structure Markers.Avoids (m : Markers) (value : String) : Prop where
  ne_empty : value ≠ ""
  not_mem : ∀ c ∈ value.toList, c ∉ m.start.toList

/-- No start marker stands in a division that was filled in with values that keep it away. -/
theorem Division.Lies.not_isInfix_filled {d : Division} {values : List String}
    (hd : d.Lies m strict text a) (hv : d.HasValues bindings values)
    (h : ∀ p ∈ d.parts, ∀ v, Resolves bindings p.body v → m.Avoids v) :
    ¬m.start.toList <:+: d.filled values := by
  obtain ⟨ps, last⟩ := d
  dsimp only [HasValues] at hv h
  induction hv generalizing a with
  | nil => exact hd.not_isInfix_literal
  | @cons p v ps values hpv _ ih =>
    rw [lies_cons_iff] at hd
    rw [List.forall_mem_cons] at h
    have hvalue := h.1 v hpv
    have hstep : filled ⟨p :: ps, last⟩ (v :: values) =
        p.literal ++ (v.toList ++ filled ⟨ps, last⟩ values) := by simp [filled]
    rw [hstep]
    intro hmarker
    rcases isInfix_append_cases (by simpa using hvalue.ne_empty) hvalue.not_mem hmarker with hm | hm
    · exact hd.1.lies_literal.not_isInfix_literal hm
    · exact ih hd.2 h.2 hm

/-- The bodies of a division are those of the text that it divides. -/
theorem Division.Lies.body_mem_bodies {d : Division} {p : Part} (hd : d.Lies m strict text 0)
    (hp : p ∈ d.parts) : p.body ∈ (Layout.ofText m strict 0 text).bodies := by
  have hlayout := ofText_of_lies hd
  rw [List.drop_zero] at hlayout
  rw [hlayout, bodies_layout]
  exact List.mem_append_left _ (List.mem_map_of_mem hp)

/-! ## Scans of what was filled in -/

/-- A text without start markers is left as it is. -/
theorem scanCounting_of_not_isInfix {text : String} (h : ¬m.start.toList <:+: text.toList)
    (strict : Bool) (bindings : Mapping) : scanCounting m strict bindings text = .ok (text, 0) := by
  have hlies : Division.Lies m strict text.toList 0 ⟨[], text.toList⟩ :=
    Division.lies_nil_iff.2 ⟨List.prefix_rfl, fun q _ _ hq =>
      h (isInfix_iff_exists_occursAt.2 ⟨q, hq⟩)⟩
  rw [scanCounting_of_lies hlies rfl .nil]
  simp [Division.filled]

/-- If no placeholder of a text is replaced by an empty value, nor by one with a character of the start
    marker, then no start marker stands in what a scan of the text gives, and every further scan, in
    either mode and with any bindings, leaves it as it is and replaces nothing. -/
theorem run_filled {text out : String}
    (h : (Request.ofParts m strict bindings text).run.result = .ok out)
    (hvalues : ∀ body ∈ (Layout.ofText m strict 0 text.toList).bodies, ∀ value,
      Resolves bindings body value → m.Avoids value) :
    ¬m.start.toList <:+: out.toList ∧ ∀ (strict' : Bool) (bindings' : Mapping),
      (Request.ofParts m strict' bindings' out).run.result = .ok out ∧
        scanCounting m strict' bindings' out = .ok (out, 0) := by
  simp only [Request.result_run_ofParts] at h ⊢
  obtain ⟨n, hn⟩ := scan_eq_ok_iff.1 h
  obtain ⟨d, hd, -, values, hv, rfl, -⟩ := scanCounting_eq_ok_iff.1 hn
  have hfree : ¬m.start.toList <:+: (String.ofList (d.filled values)).toList := by
    rw [String.toList_ofList]
    exact hd.not_isInfix_filled hv fun p hp => hvalues p.body (hd.body_mem_bodies hp)
  refine ⟨hfree, fun strict' bindings' => ?_⟩
  have hscan := scanCounting_of_not_isInfix hfree strict' bindings'
  exact ⟨scan_eq_ok_iff.2 ⟨0, hscan⟩, hscan⟩

/-- The two halves of a start marker are kept apart by a value and a default between them. -/
theorem run_filled_between_halves :
    let m : Markers := ⟨"*(", ")*", by decide, by decide⟩
    let bindings : Mapping := [(.str "a", .str "1")]
    let text := "**(a)**(?n defVal=\"-\")*("
    (Request.ofParts m true bindings text).run.result = .ok "*1-(" ∧
      (∀ body ∈ (Layout.ofText m true 0 text.toList).bodies, ∀ value,
        Resolves bindings body value → m.Avoids value) ∧
      ¬m.start.toList <:+: "*1-(".toList ∧
      ∀ (strict : Bool) (bindings' : Mapping),
        (Request.ofParts m strict bindings' "*1-(").run.result = .ok "*1-(" := by
  intro m bindings text
  have hrun : (Request.ofParts m true bindings text).run.result = .ok "*1-(" := by decide +kernel
  have hbodies : (Layout.ofText m true 0 text.toList).bodies =
      ["a".toList, "?n defVal=\"-\"".toList] := by decide +kernel
  have hvalue {body : List Char} {v w : String} (hv : resolveBody bindings body = .ok v.toList)
      (hm : m.Avoids v) (hw : Resolves bindings body w) : m.Avoids w := by
    rw [resolveBody_of_resolves hw] at hv
    rwa [String.toList_inj.1 (Except.ok.inj hv)]
  have hvalues : ∀ body ∈ (Layout.ofText m true 0 text.toList).bodies, ∀ value,
      Resolves bindings body value → m.Avoids value := by
    simp only [hbodies, List.forall_mem_cons]
    have hone : ∀ c ∈ ['1'], c ∉ m.start.toList := List.forall_mem_singleton.2 (by decide)
    have hdash : ∀ c ∈ ['-'], c ∉ m.start.toList := List.forall_mem_singleton.2 (by decide)
    exact ⟨fun _ => hvalue (v := "1") (by decide +kernel) ⟨by decide, hone⟩,
      fun _ => hvalue (v := "-") (by decide +kernel) ⟨by decide, hdash⟩, nofun⟩
  obtain ⟨hfree, hagain⟩ := run_filled hrun hvalues
  exact ⟨hrun, hvalues, hfree, fun strict bindings' => (hagain strict bindings').1⟩

/-- With an empty value between them, the two halves become a start marker. -/
example : scan ⟨"*(", ")*", by decide, by decide⟩ true [(.str "a", .str "")] "**(a)*(" =
    .ok "*(" := by decide +kernel

end Stencil
