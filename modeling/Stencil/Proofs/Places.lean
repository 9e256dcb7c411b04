import Stencil.Files.FilePath

/-!
# Names and places

A file is called by a name without slashes that is no step within or out of its directory. A place
that is made of such names has a text of its own.

* `FileName`: a name that a file can have;
* `Place.IsClean`: a place made of names, as every path leads to (`isClean_place`);
* `FilePath.eq_of_text_ofPlace_eq`: a place is known by its text.
-/

namespace Stencil

/-! ## Pieces that were joined -/

namespace Text

variable {separator : Char} {cs p : List Char} {ps : List (List Char)}

theorem join_eq_intercalate (separator : Char) (ps : List (List Char)) :
    join separator ps = [separator].intercalate ps := by
  fun_induction join separator ps with
  | case1 => rfl
  | case2 p => rw [List.intercalate_singleton]
  | case3 p ps hps ih =>
    rw [List.intercalate_cons_of_ne_nil fun h => hps h, ih, List.append_assoc]
    rfl

/-- No piece has the separator in it. -/
theorem not_mem_of_mem_pieces (h : p ∈ pieces separator cs) : separator ∉ p := by
  fun_induction pieces separator cs generalizing p with
  | case1 =>
    rw [List.mem_singleton.1 h]
    exact List.not_mem_nil
  | case2 r ih =>
    rcases List.mem_cons.1 h with rfl | h
    · exact List.not_mem_nil
    · exact ih h
  | case3 c r _ hr => exact absurd hr (pieces_ne_nil _ r)
  | case4 c r hc q qs hr ih =>
    rw [hr] at ih
    rcases List.mem_cons.1 h with rfl | h
    · exact fun hm => (List.mem_cons.1 hm).elim (fun he => hc he.symm) (ih List.mem_cons_self)
    · exact ih (List.mem_cons_of_mem _ h)

/-- Two texts with the separator between them have their pieces one after the other. -/
theorem pieces_append_cons (separator : Char) (cs ds : List Char) :
    pieces separator (cs ++ separator :: ds) = pieces separator cs ++ pieces separator ds := by
  induction cs with
  | nil => rw [List.nil_append, pieces.eq_2, if_pos rfl, pieces.eq_1, List.singleton_append]
  | cons c cs ih =>
    rw [List.cons_append, pieces, pieces, ih]
    split
    · rw [List.cons_append]
    · cases h : pieces separator cs with
      | nil => exact absurd h (pieces_ne_nil _ cs)
      | cons p ps => simp only [List.cons_append]

theorem pieces_of_not_mem (hp : separator ∉ p) : pieces separator p = [p] := by
  induction p with
  | nil => rfl
  | cons c p ih =>
    rw [List.mem_cons, not_or] at hp
    rw [pieces, if_neg (Ne.symm hp.1), ih hp.2]

theorem pieces_append (hp : separator ∉ p) : pieces separator (p ++ separator :: cs) =
    p :: pieces separator cs := by
  rw [pieces_append_cons, pieces_of_not_mem hp, List.singleton_append]

/-- Pieces that were joined come apart again. -/
theorem pieces_join (hne : ps ≠ []) (h : ∀ p ∈ ps, separator ∉ p) :
    pieces separator (join separator ps) = ps := by
  fun_induction join separator ps with
  | case1 => exact absurd rfl hne
  | case2 p => exact pieces_of_not_mem (h p List.mem_cons_self)
  | case3 p ps hps ih =>
    rw [List.forall_mem_cons] at h
    rw [pieces_append h.1, ih (fun he => hps he) h.2]

end Text

/-! ## Names -/

/-- A text that a file can be called by. -/
structure IsName (s : String) : Prop where
  ne_empty : s ≠ ""
  ne_point : s ≠ "."
  ne_up : s ≠ ".."
  no_slash : '/' ∉ s.toList

instance (s : String) : Decidable (IsName s) :=
  decidable_of_iff (s ≠ "" ∧ s ≠ "." ∧ s ≠ ".." ∧ '/' ∉ s.toList)
    ⟨fun ⟨h₁, h₂, h₃, h₄⟩ => ⟨h₁, h₂, h₃, h₄⟩, fun ⟨h₁, h₂, h₃, h₄⟩ => ⟨h₁, h₂, h₃, h₄⟩⟩

/-- The name of a file. -/
structure FileName where
  text : String
  isName : IsName text

/-! ## Places -/

/-- A place that is made of names. -/
def Place.IsClean (p : Place) : Prop := ∀ s ∈ p, IsName s

instance (p : Place) : Decidable p.IsClean := inferInstanceAs (Decidable (∀ s ∈ p, IsName s))

variable {p q : Place}

theorem Place.IsClean.append (hp : p.IsClean) (hq : Place.IsClean q) : Place.IsClean (p ++ q) :=
  List.forall_mem_append.2 ⟨hp, hq⟩

namespace FilePath

/-- A step from a clean place along a path leads to a clean place. -/
theorem isClean_step {s : String} (hp : p.IsClean) (hs : s ≠ "" ∧ s ≠ "." ∧ '/' ∉ s.toList) :
    (step p s).IsClean := by
  rw [step]
  split
  · exact fun t ht => hp t (List.dropLast_subset p ht)
  · next hup =>
    refine Place.IsClean.append hp fun t ht => ?_
    rw [List.mem_singleton.1 ht]
    exact ⟨hs.1, hs.2.1, hup, hs.2.2⟩

/-- A path from a clean place leads to a clean place. -/
theorem isClean_place {cwd : Place} (h : cwd.IsClean) (s : String) :
    ((ofString s).place cwd).IsClean := by
  have hsegments : ∀ t ∈ (ofString s).segments, t ≠ "" ∧ t ≠ "." ∧ '/' ∉ t.toList := by
    intro t ht
    obtain ⟨hm, hne⟩ := List.mem_filter.1 ht
    obtain ⟨cs, hcs, rfl⟩ := List.mem_map.1 hm
    have hne := of_decide_eq_true hne
    refine ⟨hne.1, hne.2, ?_⟩
    rw [String.toList_ofList]
    exact Text.not_mem_of_mem_pieces hcs
  have hfoldl (l : List String) (hl : ∀ t ∈ l, t ≠ "" ∧ t ≠ "." ∧ '/' ∉ t.toList) :
      ∀ p : Place, p.IsClean → Place.IsClean (l.foldl step p) := by
    induction l with
    | nil => exact fun p hp => hp
    | cons t l ih =>
      rw [List.forall_mem_cons] at hl
      exact fun p hp => ih hl.2 _ (isClean_step hp hl.1)
  refine hfoldl _ hsegments _ ?_
  split
  · exact fun t ht => absurd ht List.not_mem_nil
  · exact h

theorem toList_text_ofPlace (p : Place) :
    (ofPlace p).text.toList = '/' :: Text.join '/' (p.map String.toList) := by
  rw [text, ofPlace, if_pos rfl, String.toList_append, String.toList_intercalate,
    Text.join_eq_intercalate]
  rfl

/-- The text of a clean place leads to the place. -/
theorem segments_text_ofPlace (h : p.IsClean) : (ofString (ofPlace p).text).segments = p := by
  have hfilter : p.filter (fun t => t ≠ "" ∧ t ≠ ".") = p :=
    List.filter_eq_self.2 fun s hs => decide_eq_true ⟨(h s hs).ne_empty, (h s hs).ne_point⟩
  have hslash : ∀ t ∈ p.map String.toList, '/' ∉ t := by
    rintro _ ht
    obtain ⟨s, hs, rfl⟩ := List.mem_map.1 ht
    exact (h s hs).no_slash
  have hmap : (p.map String.toList).map String.ofList = p := by
    rw [List.map_map]
    exact List.map_id'' (fun s => String.ofList_toList) p
  rw [ofString, toList_text_ofPlace, Text.pieces, if_pos rfl, List.map_cons,
    List.filter_cons_of_neg (by decide)]
  by_cases hne : p = []
  · subst hne
    rfl
  · rw [Text.pieces_join (by simpa using hne) hslash, hmap, hfilter]

/-- Clean places with the same text are the same. -/
theorem eq_of_text_ofPlace_eq (hp : p.IsClean) (hq : q.IsClean)
    (h : (ofPlace p).text = (ofPlace q).text) : p = q := by
  rw [← segments_text_ofPlace hp, ← segments_text_ofPlace hq, h]

end FilePath

end Stencil
