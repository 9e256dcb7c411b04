import Mathlib.Logic.ExistsUnique
import Stencil.Config.Variable
import Stencil.Proofs.Readings

/-!
# Paths that variables name

The name of a variable spells one path, or none. Between three underscores or more it is the first two
that count, so a segment may begin with an underscore, but only the last one may end in one. Upper and
lower case are the same in a name: no lower case brings an underscore with it or takes one away.

* `Text.lower_lower`: a text in lower case stays as it is;
* `Variable.IsCut`, `Variable.segments_eq_iff`: the pieces of a name are the only ones that it can be
  cut into;
* `Variable.Addressable`: the paths that names can spell;
* `Variable.path_decodes`: which names spell a path, which path that is, and which paths are spelled.
-/

namespace Stencil

/-! ## Lower case -/

namespace Text

/-- No character of a run is mapped to one of another run: they are too small or too great, or they
    fall between the others. -/
def CaseRun.misses (r s : CaseRun) : Bool :=
  (Int.toNat (r.last + r.shift)).blt s.first || s.last.blt (Int.toNat (r.first + r.shift)) ||
    ((r.first == r.last || r.step % s.step == 0) && (r.first + r.shift - s.first) % s.step != 0)

theorem CaseRun.not_has_of_misses {r s : CaseRun} (h : r.misses s) {n m : Nat} (hn : r.has n)
    (hm : (m : Int) = n + r.shift) : ¬s.has m := by
  simp only [has, Bool.and_eq_true, decide_eq_true_eq, beq_iff_eq] at hn ⊢
  simp only [misses, Bool.or_eq_true, Bool.and_eq_true, Nat.blt_eq, beq_iff_eq, bne_iff_ne] at h
  obtain ⟨⟨hfirst, hlast⟩, hstep⟩ := hn
  rintro ⟨⟨hfirst', hlast'⟩, hstep'⟩
  rcases h with (h | h) | ⟨h, hne⟩
  · omega
  · omega
  · -- Both runs go on in steps, so what is left of the first images is left of all of them.
    have hdvd : (s.step : Int) ∣ (n : Int) - r.first := by
      rcases h with h | h
      · rw [show n = r.first by omega, Int.sub_self]
        exact Int.dvd_zero _
      · rw [← Int.natCast_sub hfirst]
        exact Int.natCast_dvd_natCast.2
          (Nat.dvd_trans (Nat.dvd_of_mod_eq_zero h) (Nat.dvd_of_mod_eq_zero hstep))
    have hdvd' : (s.step : Int) ∣ (m : Int) - s.first := by
      rw [← Int.natCast_sub hfirst']
      exact Int.natCast_dvd_natCast.2 (Nat.dvd_of_mod_eq_zero hstep')
    refine hne (Int.emod_eq_zero_of_dvd ?_)
    have hsub := Int.dvd_sub hdvd' hdvd
    rwa [show (m : Int) - s.first - (n - r.first) = r.first + r.shift - s.first by omega] at hsub

/-- The characters that have no form of their own among the runs: the capital I with a dot and the
    capital sigma, and the underscore. -/
def lowerSpecials : List CaseRun := [⟨0x130, 0x130, 2, 0⟩, ⟨0x3A3, 0x3A3, 2, 0⟩, ⟨0x5F, 0x5F, 2, 0⟩]

/-- What is no character at all is mapped to the first one. -/
theorem toNat_ofNat_or (n : Nat) : (Char.ofNat n).toNat = n ∨ Char.ofNat n = Char.ofNat 0 := by
  by_cases hvalid : n.isValidChar
  · left
    rw [Char.ofNat, dif_pos hvalid]
    rfl
  · right
    rw [Char.ofNat, dif_neg hvalid]
    rfl

/-- What a character is mapped to stays as it is, and it is an underscore only if it was one before. -/
theorem isCaseless_toLower {c : Char} (hdotted : c.toNat ≠ 0x130) (hsigma : c.toNat ≠ 0x3A3) :
    IsCaseless (toLower c) ∧ (toLower c = '_' → c = '_') := by
  have hruns : (lowerRuns.all fun r => (lowerRuns ++ lowerSpecials).all r.misses) = true := by
    decide +kernel
  have hzero : IsCaseless (Char.ofNat 0) ∧ (Char.ofNat 0 = '_' → c = '_') :=
    ⟨⟨by decide, by decide, by decide⟩, fun h => absurd h (by decide)⟩
  rw [toLower]
  split
  · next r hr =>
    have hhas := List.find?_some hr
    have hr := List.mem_of_find?_eq_some hr
    generalize hk : Int.toNat (c.toNat + r.shift) = k
    rcases toNat_ofNat_or k with hchar | hchar
    · by_cases hneg : (c.toNat : Int) + r.shift < 0
      · rw [show k = 0 by omega]
        exact hzero
      have himage : (k : Int) = c.toNat + r.shift := by omega
      have hmiss {s : CaseRun} (hs : s ∈ lowerRuns ++ lowerSpecials) : ¬s.has k :=
        CaseRun.not_has_of_misses (List.all_eq_true.1 (List.all_eq_true.1 hruns r hr) s hs) hhas himage
      have hspecial {n : Nat} (hn : ⟨n, n, 2, 0⟩ ∈ lowerSpecials) : k ≠ n := by
        rintro rfl
        exact hmiss (List.mem_append_right _ hn) (by simp [CaseRun.has])
      refine ⟨⟨?_, ?_, ?_⟩, fun h => ?_⟩
      · have hnone : lowerRuns.find? (·.has k) = none :=
          List.find?_eq_none.2 fun s hs => hmiss (List.mem_append_left _ hs)
        rw [toLower, hchar, hnone]
      · rw [hchar]
        exact hspecial (by simp [lowerSpecials])
      · rw [hchar]
        exact hspecial (by simp [lowerSpecials])
      · rw [h] at hchar
        exact absurd hchar.symm (hspecial (by simp [lowerSpecials]))
    · rw [hchar]
      exact hzero
  · next hnone => exact ⟨⟨by rw [toLower, hnone], hdotted, hsigma⟩, id⟩

/-- A character comes to some characters that stay as they are, and an underscore to itself alone. -/
theorem exists_lowerFrom_cons (before : List Char) (c : Char) (rest : List Char) :
    ∃ low, lowerFrom before (c :: rest) = low ++ lowerFrom (c :: before) rest ∧ low ≠ [] ∧
      (∀ d ∈ low, IsCaseless d) ∧ (if c = '_' then low = ['_'] else '_' ∉ low) := by
  rw [lowerFrom]
  refine ⟨_, rfl, ?_⟩
  by_cases hdotted : c.toNat = 0x130
  · have hc : c ≠ '_' := by
      rintro rfl
      exact absurd hdotted (by decide)
    rw [if_pos (by simpa using hdotted), if_neg hc]
    refine ⟨by simp, ?_, by decide⟩
    simp only [List.mem_cons, List.not_mem_nil, or_false]
    rintro d (rfl | rfl) <;> exact ⟨by decide, by decide, by decide⟩
  by_cases hsigma : c.toNat = 0x3A3
  · have hc : c ≠ '_' := by
      rintro rfl
      exact absurd hsigma (by decide)
    rw [if_neg (by simpa using hdotted), if_pos (by simpa using hsigma), if_neg hc]
    refine ⟨by simp, ?_, ?_⟩
    · intro d hd
      rw [List.mem_singleton.1 hd]
      split <;> exact ⟨by decide, by decide, by decide⟩
    · split <;> decide
  rw [if_neg (by simpa using hdotted), if_neg (by simpa using hsigma)]
  obtain ⟨hcaseless, hunderscore⟩ := isCaseless_toLower hdotted hsigma
  refine ⟨by simp, by simpa using hcaseless, ?_⟩
  split
  · next hc => rw [hc, show toLower '_' = '_' by decide]
  · next hc => exact fun h => hc (hunderscore (List.mem_singleton.1 h).symm)

theorem lowerFrom_of_isCaseless {cs : List Char} (h : ∀ c ∈ cs, IsCaseless c) (before : List Char) :
    lowerFrom before cs = cs := by
  induction cs generalizing before with
  | nil => rfl
  | cons c cs ih =>
    rw [List.forall_mem_cons] at h
    rw [lowerFrom, ih h.2, if_neg (by simpa using h.1.ne_dotted), if_neg (by simpa using h.1.ne_sigma),
      h.1.toLower_eq, List.singleton_append]

theorem isCaseless_of_mem_lowerFrom {before cs : List Char} {c : Char} (h : c ∈ lowerFrom before cs) :
    IsCaseless c := by
  induction cs generalizing before with
  | nil => exact absurd h List.not_mem_nil
  | cons d cs ih =>
    obtain ⟨low, hlow, -, hcaseless, -⟩ := exists_lowerFrom_cons before d cs
    rw [hlow, List.mem_append] at h
    exact h.elim (hcaseless c) ih

/-- A text in lower case stays as it is. -/
theorem lower_lower (s : String) : lower (lower s) = lower s := by
  rw [lower, lower, String.toList_ofList, lowerFrom_of_isCaseless fun _ => isCaseless_of_mem_lowerFrom]

theorem lowerFrom_eq_nil_iff {before cs : List Char} : lowerFrom before cs = [] ↔ cs = [] := by
  cases cs with
  | nil => exact iff_of_true rfl rfl
  | cons c cs =>
    obtain ⟨low, hlow, hne, -⟩ := exists_lowerFrom_cons before c cs
    simp [hlow, hne]

/-! ### Underscores -/

theorem head?_lowerFrom_iff {before cs : List Char} :
    (lowerFrom before cs).head? = some '_' ↔ cs.head? = some '_' := by
  cases cs with
  | nil => rfl
  | cons c cs =>
    obtain ⟨low, hlow, hne, -, hunderscore⟩ := exists_lowerFrom_cons before c cs
    obtain ⟨d, low, rfl⟩ := List.exists_cons_of_ne_nil hne
    rw [hlow, List.cons_append, List.head?_cons, List.head?_cons]
    split at hunderscore
    · next hc => simp_all
    · next hc =>
      simp only [List.mem_cons, not_or] at hunderscore
      simp [hc, Ne.symm hunderscore.1]

theorem getLast?_lowerFrom_iff {before cs : List Char} :
    (lowerFrom before cs).getLast? = some '_' ↔ cs.getLast? = some '_' := by
  induction cs generalizing before with
  | nil => rfl
  | cons c cs ih =>
    obtain ⟨low, hlow, hne, -, hunderscore⟩ := exists_lowerFrom_cons before c cs
    rw [hlow]
    cases cs with
    | nil =>
      rw [lowerFrom, List.append_nil, List.getLast?_singleton]
      split at hunderscore
      · next hc => simp [hc, hunderscore]
      · next hc =>
        refine iff_of_false (fun h => hunderscore (List.mem_of_getLast? h)) ?_
        simpa using hc
    | cons d cs =>
      have hne' : lowerFrom (c :: before) (d :: cs) ≠ [] := mt lowerFrom_eq_nil_iff.1 (by simp)
      rw [List.getLast?_append_of_ne_nil _ hne', ih, List.getLast?_cons_cons]

/-- A pair of underscores is at the beginning of a text, or behind its first character. -/
theorem pair_isInfix_cons_iff {c : Char} {cs : List Char} :
    ['_', '_'] <:+: c :: cs ↔ (c = '_' ∧ cs.head? = some '_') ∨ ['_', '_'] <:+: cs := by
  rw [List.infix_cons_iff]
  refine or_congr_left ?_
  cases cs with
  | nil => simp
  | cons d cs => simp [eq_comm]

theorem pair_isInfix_append_iff {low cs : List Char} (h : '_' ∉ low) :
    ['_', '_'] <:+: low ++ cs ↔ ['_', '_'] <:+: cs := by
  induction low with
  | nil => rfl
  | cons c low ih =>
    simp only [List.mem_cons, not_or] at h
    rw [List.cons_append, pair_isInfix_cons_iff, ih h.2, or_iff_right fun hc => h.1 hc.1.symm]

/-- Pairs of underscores are the same in lower case. -/
theorem pair_isInfix_lowerFrom_iff {before cs : List Char} :
    ['_', '_'] <:+: lowerFrom before cs ↔ ['_', '_'] <:+: cs := by
  induction cs generalizing before with
  | nil => rfl
  | cons c cs ih =>
    obtain ⟨low, hlow, -, -, hunderscore⟩ := exists_lowerFrom_cons before c cs
    rw [hlow, pair_isInfix_cons_iff]
    split at hunderscore
    · next hc =>
      rw [hunderscore, List.singleton_append, pair_isInfix_cons_iff, head?_lowerFrom_iff, ih, hc]
    · next hc => rw [pair_isInfix_append_iff hunderscore, ih, or_iff_right fun h => hc h.1]

end Text

namespace Variable

/-! ## Pieces -/

/-- Pieces that a text may be cut into from left to right: no pair of underscores is left in any of
    them, and none was passed over at the end of one. -/
structure IsCut (ps : List (List Char)) : Prop where
  ne_nil : ps ≠ []
  no_pair : ∀ p ∈ ps, ¬['_', '_'] <:+: p
  no_end : ∀ p ∈ ps.dropLast, p.getLast? ≠ some '_'

theorem isCut_singleton_iff {p : List Char} : IsCut [p] ↔ ¬['_', '_'] <:+: p :=
  ⟨fun h => h.no_pair p List.mem_cons_self, fun h => ⟨by simp, by simpa using h, by simp⟩⟩

theorem isCut_cons_iff {p : List Char} {ps : List (List Char)} (hps : ps ≠ []) :
    IsCut (p :: ps) ↔ (¬['_', '_'] <:+: p ∧ p.getLast? ≠ some '_') ∧ IsCut ps := by
  obtain ⟨q, ps, rfl⟩ := List.exists_cons_of_ne_nil hps
  constructor
  · rintro ⟨-, hpair, hend⟩
    rw [List.forall_mem_cons] at hpair
    rw [List.dropLast_cons_cons, List.forall_mem_cons] at hend
    exact ⟨⟨hpair.1, hend.1⟩, by simp, hpair.2, hend.2⟩
  · rintro ⟨⟨hpair, hend⟩, h⟩
    exact ⟨by simp, List.forall_mem_cons.2 ⟨hpair, h.no_pair⟩,
      List.dropLast_cons_cons ▸ List.forall_mem_cons.2 ⟨hend, h.no_end⟩⟩

/-- One more character in front of a cut belongs to its first piece, unless it makes a pair. -/
theorem IsCut.cons {c : Char} {p : List Char} {ps : List (List Char)} (h : IsCut (p :: ps))
    (hc : c = '_' → p.head? ≠ some '_' ∧ (ps ≠ [] → p ≠ [])) : IsCut ((c :: p) :: ps) := by
  have hpair (h : ¬['_', '_'] <:+: p) : ¬['_', '_'] <:+: c :: p := by
    rw [Text.pair_isInfix_cons_iff]
    rintro (⟨rfl, hhead⟩ | hp)
    · exact (hc rfl).1 hhead
    · exact h hp
  by_cases hps : ps = []
  · subst hps
    exact isCut_singleton_iff.2 (hpair (isCut_singleton_iff.1 h))
  · rw [isCut_cons_iff hps] at h ⊢
    refine ⟨⟨hpair h.1.1, fun hlast => ?_⟩, h.2⟩
    cases p with
    | nil => exact (hc (by simpa using hlast)).2 hps rfl
    | cons d p => exact h.1.2 (by rwa [List.getLast?_cons_cons] at hlast)

/-- The first piece begins as the text does. -/
theorem head?_segments {cs p : List Char} {ps : List (List Char)} (h : segments cs = p :: ps) :
    (p.head? = some '_' → cs.head? = some '_') ∧ (ps ≠ [] → p = [] → cs.head? = some '_') := by
  fun_cases segments cs with
  | case1 =>
    cases h
    simp
  | case2 r => simp
  | case3 c r _ hr => exact absurd hr (segments_ne_nil r)
  | case4 c r _ q qs hr =>
    rw [segments, hr] at h
    · cases h
      simp
    · assumption

/-- A text is cut into pieces that it may be cut into. -/
theorem isCut_segments (cs : List Char) : IsCut (segments cs) := by
  fun_induction segments cs with
  | case1 => exact isCut_singleton_iff.2 (by simp)
  | case2 r ih => exact (isCut_cons_iff (segments_ne_nil r)).2 ⟨by simp, ih⟩
  | case3 c r _ h => exact absurd h (segments_ne_nil r)
  | case4 c r hnot p ps h ih =>
    rw [h] at ih
    have hhead : c = '_' → r.head? ≠ some '_' := by
      rintro rfl hr
      obtain ⟨r, rfl⟩ := List.head?_eq_some_iff.1 hr
      exact hnot r rfl rfl
    exact ih.cons fun hc => ⟨mt (head?_segments h).1 (hhead hc),
      fun hps hp => hhead hc ((head?_segments h).2 hps hp)⟩

theorem segments_cons {c : Char} {r : List Char} (h : c = '_' → r.head? ≠ some '_') {p : List Char}
    {ps : List (List Char)} (hr : segments r = p :: ps) : segments (c :: r) = (c :: p) :: ps := by
  rw [segments, hr]
  rintro r' rfl rfl
  exact h rfl rfl

/-- A piece in front of a pair is cut off there. -/
theorem segments_append {p : List Char} (hpair : ¬['_', '_'] <:+: p) (hend : p.getLast? ≠ some '_')
    (r : List Char) : segments (p ++ '_' :: '_' :: r) = p :: segments r := by
  induction p with
  | nil => rfl
  | cons c p ih =>
    rw [Text.pair_isInfix_cons_iff, not_or] at hpair
    cases p with
    | nil =>
      have hc : c ≠ '_' := by simpa using hend
      exact segments_cons (fun h => absurd h hc) rfl
    | cons d p =>
      rw [List.getLast?_cons_cons] at hend
      exact segments_cons (fun h hd => hpair.1 ⟨h, by simpa using hd⟩) (ih hpair.2 hend)

theorem segments_of_not_isInfix {p : List Char} (h : ¬['_', '_'] <:+: p) : segments p = [p] := by
  induction p with
  | nil => rfl
  | cons c p ih =>
    rw [Text.pair_isInfix_cons_iff, not_or] at h
    exact segments_cons (fun hc hp => h.1 ⟨hc, hp⟩) (ih h.2)

/-- Pieces that were joined are cut again at the same places. -/
theorem segments_join {ps : List (List Char)} (h : IsCut ps) : segments (join ps) = ps := by
  induction ps with
  | nil => exact absurd rfl h.ne_nil
  | cons p ps ih =>
    cases ps with
    | nil => exact segments_of_not_isInfix (isCut_singleton_iff.1 h)
    | cons q ps =>
      obtain ⟨⟨hpair, hend⟩, h⟩ := (isCut_cons_iff (by simp)).1 h
      rw [join, segments_append hpair hend, ih h]
      simp

/-- The pieces of a text are the only ones that it can be cut into. -/
theorem segments_eq_iff {cs : List Char} {ps : List (List Char)} :
    segments cs = ps ↔ IsCut ps ∧ join ps = cs := by
  constructor
  · rintro rfl
    exact ⟨isCut_segments cs, join_segments cs⟩
  · rintro ⟨h, rfl⟩
    exact segments_join h

/-! ## Paths -/

/-- The paths that names can spell: their segments are in lower case and not empty, and where they are
    joined, no other pair of underscores comes up. -/
structure Addressable (path : List String) : Prop where
  ne_nil : path ≠ []
  ne_empty : ∀ s ∈ path, s ≠ ""
  lower_eq : ∀ s ∈ path, Text.lower s = s
  no_pair : ∀ s ∈ path, ¬['_', '_'] <:+: s.toList
  no_end : ∀ s ∈ path.dropLast, s.toList.getLast? ≠ some '_'

/-- The path of some pieces. -/
def pathOf (ps : List (List Char)) : List String := ps.map fun p => Text.lower (String.ofList p)

variable {raw : String} {ss : List String} {ps : List (List Char)}

theorem path_eq (raw : String) : path raw =
    if [] ∈ segments raw.toList then .error (.emptySegment raw)
    else .ok (pathOf (segments raw.toList)) := by
  have hany : (segments raw.toList).any List.isEmpty ↔ [] ∈ segments raw.toList := by
    simp [List.any_eq_true]
  unfold path
  dsimp only
  exact ite_congr (propext hany) (fun _ => rfl) fun _ => rfl

theorem addressable_pathOf (h : IsCut ps) (hempty : [] ∉ ps) : Addressable (pathOf ps) := by
  have hlow (p : List Char) : (Text.lower (String.ofList p)).toList = Text.lowerFrom [] p := by
    rw [Text.lower, String.toList_ofList, String.toList_ofList]
  refine ⟨by simpa [pathOf] using h.ne_nil, ?_, ?_, ?_, ?_⟩
  · simp only [pathOf, List.mem_map]
    rintro _ ⟨p, hp, rfl⟩ hnil
    have hp' := congrArg String.toList hnil
    rw [hlow, String.toList_empty, Text.lowerFrom_eq_nil_iff] at hp'
    exact hempty (hp' ▸ hp)
  · simp only [pathOf, List.mem_map]
    rintro _ ⟨p, -, rfl⟩
    exact Text.lower_lower _
  · simp only [pathOf, List.mem_map]
    rintro _ ⟨p, hp, rfl⟩
    rw [hlow, Text.pair_isInfix_lowerFrom_iff]
    exact h.no_pair p hp
  · simp only [pathOf, ← List.map_dropLast, List.mem_map]
    rintro _ ⟨p, hp, rfl⟩
    rw [Ne, hlow, Text.getLast?_lowerFrom_iff]
    exact h.no_end p hp

theorem Addressable.isCut (h : Addressable ss) : IsCut (ss.map String.toList) := by
  refine ⟨by simpa using h.ne_nil, ?_, ?_⟩
  · simp only [List.mem_map]
    rintro _ ⟨s, hs, rfl⟩
    exact h.no_pair s hs
  · simp only [← List.map_dropLast, List.mem_map]
    rintro _ ⟨s, hs, rfl⟩
    exact h.no_end s hs

theorem Addressable.pathOf_eq (h : Addressable ss) : pathOf (ss.map String.toList) = ss := by
  rw [pathOf, List.map_map]
  refine (List.map_congr_left fun s hs => ?_).trans (List.map_id ss)
  rw [Function.comp_apply, String.ofList_toList, h.lower_eq s hs, id]

theorem path_eq_error_iff {e : Error} : path raw = .error e ↔
    e = .emptySegment raw ∧ ∃ ps, IsCut ps ∧ join ps = raw.toList ∧ [] ∈ ps := by
  rw [path_eq]
  constructor
  · intro h
    split at h
    · next hempty =>
      cases h
      exact ⟨rfl, _, isCut_segments _, join_segments _, hempty⟩
    · cases h
  · rintro ⟨rfl, ps, hcut, hjoin, hempty⟩
    rw [segments_eq_iff.2 ⟨hcut, hjoin⟩, if_pos hempty]

theorem path_eq_ok_iff : path raw = .ok ss ↔
    ∃ ps, IsCut ps ∧ join ps = raw.toList ∧ [] ∉ ps ∧ ss = pathOf ps := by
  rw [path_eq]
  constructor
  · intro h
    split at h
    · cases h
    · next hempty =>
      cases h
      exact ⟨_, isCut_segments _, join_segments _, hempty, rfl⟩
  · rintro ⟨ps, hcut, hjoin, hempty, rfl⟩
    rw [segments_eq_iff.2 ⟨hcut, hjoin⟩, if_neg hempty]

/-- An addressable path is spelled by its segments, joined by pairs of underscores. -/
theorem Addressable.path_join (h : Addressable ss) :
    path (String.ofList (join (ss.map String.toList))) = .ok ss := by
  refine path_eq_ok_iff.2 ⟨_, h.isCut, String.toList_ofList.symm, ?_, h.pathOf_eq.symm⟩
  simp only [List.mem_map, not_exists, not_and]
  exact fun s hs hnil => h.ne_empty s hs (String.toList_eq_nil_iff.1 hnil)

/-- There is one way to cut a name into pieces. If one of them is empty, that is reported, and it is
    the only failure; otherwise the path is that of the pieces. The paths that names spell are the
    addressable ones, and each of them is spelled by its own segments. -/
theorem path_decodes :
    (∀ raw : String, ∃! ps, IsCut ps ∧ join ps = raw.toList) ∧
    (∀ raw e, path raw = .error e ↔
      e = .emptySegment raw ∧ ∃ ps, IsCut ps ∧ join ps = raw.toList ∧ [] ∈ ps) ∧
    (∀ raw, (Error.emptySegment raw).category = .config) ∧
    (∀ raw ss, path raw = .ok ss ↔
      ∃ ps, IsCut ps ∧ join ps = raw.toList ∧ [] ∉ ps ∧ ss = pathOf ps) ∧
    (∀ raw ss, path raw = .ok ss → Addressable ss) ∧
    ∀ ss, Addressable ss → path (String.ofList (join (ss.map String.toList))) = .ok ss := by
  refine ⟨fun raw => ?_, fun _ _ => path_eq_error_iff, fun _ => rfl, fun _ _ => path_eq_ok_iff,
    fun raw ss h => ?_, fun _ h => h.path_join⟩
  · exact ⟨segments raw.toList, segments_eq_iff.1 rfl, fun ps h => (segments_eq_iff.2 h).symm⟩
  · obtain ⟨ps, hcut, -, hempty, rfl⟩ := path_eq_ok_iff.1 h
    exact addressable_pathOf hcut hempty

/-- Of three underscores the last one belongs to the segment behind them. -/
theorem path_of_three_underscores :
    Addressable ["a", "_b", "c_"] ∧ path "a___b__c_" = .ok ["a", "_b", "c_"] := by
  have h : Addressable ["a", "_b", "c_"] :=
    ⟨by decide, by decide, by decide +kernel, by decide, by decide⟩
  have hpath := path_decodes.2.2.2.2.2 _ h
  have hname : String.ofList (join (["a", "_b", "c_"].map String.toList)) = "a___b__c_" := by decide
  exact ⟨h, hname ▸ hpath⟩

end Variable

end Stencil
