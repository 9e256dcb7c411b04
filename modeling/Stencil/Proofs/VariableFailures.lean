import Stencil.Proofs.EveryPart
import Stencil.Proofs.ValidConfig

/-!
# Variables that cannot be read

A variable whose text cannot be read keeps a configuration from being loaded, and no failure of the
library is reported. If all variables can be read, what they put into a configuration can be shown, and
loading it ends with a configuration, or with the report of what is wrong with it.

* `Value.isSome_literal?_iff`: the values that can be shown;
* `Config.validate_of_isSome_literal?`: a value that can be shown is accepted, or refused with details;
* `Config.overrideAll_cases`: the first variable that cannot be read decides, or all can be;
* `Config.read_and_compute_cases`: the texts that cannot be read, and what loading comes to.
-/

namespace Stencil

/-! ## Values that can be shown -/

theorem Scalar.isSome_literal?_iff {s : Scalar} : s.literal?.isSome ↔ s.IsShort := by
  cases s with
  | int i =>
    rw [literal?, IsShort, ← Nat.not_le, ← Numeral.intText?_eq_none_iff, Option.isSome_iff_ne_none]
  | _ => exact iff_of_true rfl trivial

namespace Key

variable {k : Key} {ks : List Key}

theorem isSome_literals?_iff : (literal?.literals? ks).isSome ↔ ∀ k ∈ ks, k.literal?.isSome := by
  induction ks with
  | nil => exact iff_of_true rfl (List.forall_mem_nil _)
  | cons k ks ih =>
    rw [List.forall_mem_cons, ← ih, literal?.literals?]
    cases k.literal? <;> simp

/-- A key can be shown if no integer in it has too many digits. -/
theorem isSome_literal?_iff (k : Key) : k.literal?.isSome ↔ k.Every Scalar.IsShort := by
  cases k with
  | scalar s => exact Scalar.isSome_literal?_iff.trans Every.scalar_iff.symm
  | tuple ks =>
    rw [literal?, Option.isSome_map, isSome_literals?_iff, Every.tuple_iff]
    exact forall₂_congr fun k _ => isSome_literal?_iff k

mutual

/-- A key is shown as the value that it is. -/
theorem literal?_toValue : ∀ k : Key, k.toValue.literal? = k.literal?
  | .scalar _ => rfl
  | .tuple ks => by rw [toValue, Value.literal?, literals?_toValues ks, literal?]

theorem literals?_toValues :
    ∀ ks : List Key, Value.literal?.literals? (toValue.toValues ks) = literal?.literals? ks
  | [] => rfl
  | k :: ks => by
    rw [toValue.toValues, Value.literal?.literals?, literal?_toValue k, literals?_toValues ks,
      literal?.literals?]

end

end Key

namespace Value

variable {m : Mapping} {k : Key} {v : Value} {vs : List Value}

theorem isSome_literals?_iff : (literal?.literals? vs).isSome ↔ ∀ v ∈ vs, v.literal?.isSome := by
  induction vs with
  | nil => exact iff_of_true rfl (List.forall_mem_nil _)
  | cons v vs ih =>
    rw [List.forall_mem_cons, ← ih, literal?.literals?]
    cases v.literal? <;> simp

/-- A mapping can be shown if all its keys and values can. -/
theorem isSome_literal?_map_iff : (Value.map m).literal?.isSome ↔
    ∀ e ∈ m, e.1.literal?.isSome ∧ e.2.literal?.isSome := by
  have hentries : (literal?.entries? m).isSome ↔
      ∀ e ∈ m, e.1.literal?.isSome ∧ e.2.literal?.isSome := by
    induction m with
    | nil => exact iff_of_true rfl fun _ he => absurd he List.not_mem_nil
    | cons e m ih =>
      obtain ⟨k, v⟩ := e
      rw [List.forall_mem_cons, ← ih, literal?.entries?]
      cases k.literal? with
      | none => simp
      | some s => cases v.literal? <;> simp
  rwa [literal?, Option.isSome_map]

/-- A value can be shown if no integer in it has too many digits. -/
theorem isSome_literal?_iff : v.literal?.isSome ↔ v.IsShort := by
  induction v using Value.rec_on_parts with
  | scalar s => exact Scalar.isSome_literal?_iff.trans Every.scalar_iff.symm
  | list vs ih =>
    rw [literal?, Option.isSome_map, isSome_literals?_iff, IsShort, Every.list_iff]
    exact forall₂_congr ih
  | tuple vs ih =>
    rw [literal?, Option.isSome_map, isSome_literals?_iff, IsShort, Every.tuple_iff]
    exact forall₂_congr ih
  | map es ih =>
    rw [isSome_literal?_map_iff, IsShort, Every.map_iff, ← forall₂_and]
    exact forall₂_congr fun e he => and_congr (Key.isSome_literal?_iff e.1) (ih e he)

/-- A value that can be shown has a text as well. -/
theorem isSome_text?_iff : v.text?.isSome ↔ v.literal?.isSome := by
  unfold text?
  split <;> rfl

theorem isSome_literal?_of_get? (hm : (Value.map m).literal?.isSome) (h : m.get? k = some v) :
    v.literal?.isSome :=
  isSome_literal?_iff.2 (Mapping.every_of_get? (isSome_literal?_iff.1 hm) h)

/-- A value that can be shown is put into a mapping that can be. -/
theorem isSome_literal?_setAt (hm : (Value.map m).literal?.isSome) (hv : v.literal?.isSome)
    (s : String) (path : List String) : (Value.map (m.setAt s path v)).literal?.isSome := by
  rw [isSome_literal?_iff] at hm hv ⊢
  exact Mapping.every_setAt (fun _ => .scalar trivial) hm hv s path

end Value

theorem Key.isSome_text?_iff {k : Key} : k.text?.isSome ↔ k.literal?.isSome := by
  rw [text?, Value.isSome_text?_iff, literal?_toValue]

/-- What a variable is read as can be shown. -/
theorem Coercion.isSome_literal?_of_read {s : String} {v : Value} (h : read s = .ok v) :
    v.literal?.isSome := by
  refine Value.isSome_literal?_iff.2 ((every_of_read h).imp (fun k hk => ?_) fun _ => And.left)
  obtain ⟨t, rfl⟩ := hk
  exact .scalar (Scalar.isShort_ofText t)

namespace Config

/-! ## Configurations that can be shown -/

theorem textOf_of_isSome {t : Option String} (h : t.isSome) : textOf t = .ok (t.get h) := by
  obtain ⟨s, rfl⟩ := Option.isSome_iff_exists.1 h
  rfl

theorem exists_extras_eq_ok {m : Mapping} (hm : (Value.map m).literal?.isSome)
    (names : List String) : ∃ xs, Schema.extras names m = .ok xs := by
  have hkeys : ∀ k ∈ Mapping.keys m |>.filter fun k => names.all fun n => !(Key.str n).same k,
      k.literal?.isSome := fun k hk => by
    obtain ⟨e, he, rfl⟩ := List.mem_map.1 (List.mem_of_mem_filter hk)
    exact (Value.isSome_literal?_map_iff.1 hm e he).1
  unfold Schema.extras
  generalize (Mapping.keys m |>.filter fun k => names.all fun n => !(Key.str n).same k) = ks at hkeys ⊢
  induction ks with
  | nil => exact ⟨[], rfl⟩
  | cons k ks ih =>
    rw [List.forall_mem_cons] at hkeys
    obtain ⟨xs, hxs⟩ := ih hkeys.2
    have htext := Key.isSome_text?_iff.2 hkeys.1
    rw [List.mapM_cons, textOf_of_isSome htext, textOf_of_isSome hkeys.1, hxs]
    exact ⟨_, rfl⟩

/-- The message that a value does not meet a demand can be made if the value can be shown. -/
theorem exists_message_eq_ok {x : Value} (hx : x.literal?.isSome) (d : Demand) :
    ∃ t, d.message x = .ok t := by
  unfold Demand.message
  split
  · rw [Schema.literal, textOf_of_isSome hx]
    exact ⟨_, rfl⟩
  · obtain ⟨xs, hxs⟩ := exists_extras_eq_ok hx _
    rw [hxs]
    exact ⟨_, rfl⟩
  · exact ⟨_, rfl⟩
  · exact ⟨_, rfl⟩
  · rw [Schema.literal, textOf_of_isSome hx]
    exact ⟨_, rfl⟩
  · next texts =>
    have htexts : (Value.list (texts.map .str)).literal?.isSome :=
      Value.isSome_literal?_iff.2 (.list (List.forall_mem_map.2 fun _ _ => .scalar trivial))
    rw [Schema.literal, Schema.literal, textOf_of_isSome hx, textOf_of_isSome htexts]
    exact ⟨_, rfl⟩
  · exact ⟨_, rfl⟩

/-- A value that can be shown is accepted, or it is refused with details. -/
theorem validate_of_isSome_literal? {v : Value} (hv : v.literal?.isSome) :
    validate v = .ok () ∨ ∃ details, validate v = .error (Error.invalidConfiguration details) := by
  rcases Schema.eq_map_ok_or_exists_error (schema.found v) with ⟨vs, hvs⟩ | ⟨b, hb⟩
  · by_cases hne : vs = []
    · rw [hne, List.map_nil, found_eq_nil_iff] at hvs
      exact .inl (validate_eq_ok_iff.2 hvs)
    · exact .inr ⟨_, validate_of_found_eq hvs hne⟩
  · obtain ⟨r, -, hr⟩ := List.mem_filterMap.1 hb
    obtain ⟨x, hx, hr⟩ := Option.bind_eq_some_iff.1 hr
    rw [Value.at?_eq_reach?] at hx
    -- What stands anywhere in a value that can be shown can be shown as well.
    have hshown : x.literal?.isSome :=
      Value.of_reach?_eq_some (P := (Value.literal? · |>.isSome))
        (fun _ _ _ => Value.isSome_literal?_of_get?) hv hx
    obtain ⟨t, ht⟩ := exists_message_eq_ok hshown r.demand
    split at hr
    · cases hr
    · rw [ht] at hr
      cases hr

end Config

/-! ## Variables that can be read -/

namespace Variable

/-- If a variable is meant to override something, its name spells a path. -/
def WellNamed (v : String × String) : Prop :=
  Overrides v → ∃ path, Variable.path (rest v.1) = .ok path

/-- A variable is meant to override something, and its text cannot be read. -/
structure Spoils (v : String × String) (b : Breach) : Prop extends Overrides v where
  unreadable : Coercion.Unreadable v.2 b

end Variable

namespace Config

open Variable (Overrides Sets WellNamed Spoils)

variable {config : Mapping} {v : String × String} {vs : Variable.Environment}

/-- A well-named variable cannot be read, or it leaves the configuration as it is or puts a value that
    can be shown at a path. -/
theorem addVariable_of_wellNamed (hfront : Variable.front.toList <+: v.1.toList) (h : WellNamed v)
    (config : Mapping) :
    (∃ b, Spoils v b ∧ (addVariable config v).result = .error (.breach b)) ∨
      (∀ b, ¬Spoils v b) ∧ ∃ config', (addVariable config v).result = .ok config' ∧
        ((Value.map config).literal?.isSome → (Value.map config').literal?.isSome) := by
  by_cases ho : Variable.isOverride (Variable.rest v.1)
  · obtain ⟨path, hpath⟩ := h ⟨hfront, ho⟩
    cases hread : Coercion.read v.2 with
    | error b =>
      refine .inl ⟨b, ⟨⟨hfront, ho⟩, Coercion.read_eq_error_iff.1 hread⟩, ?_⟩
      rw [addVariable, ho, hpath, hread]
      rfl
    | ok value =>
      have hsets : Sets v path value := ⟨⟨hfront, ho⟩, hpath, hread⟩
      obtain ⟨s, path, rfl⟩ := List.exists_cons_of_ne_nil hsets.path_ne_nil
      have hreadable := Coercion.exists_read_eq_ok_iff.1 ⟨value, hread⟩
      exact .inr ⟨fun b hb => hreadable b hb.unreadable, _, result_addVariable_of_sets hsets config,
        fun hm => Value.isSome_literal?_setAt hm (Coercion.isSome_literal?_of_read hread) s path⟩
  · exact .inr ⟨fun b hb => ho hb.isOverride, config,
      result_addVariable_of_not_isOverride ho config, id⟩

/-- The first variable that cannot be read decides. If there is none, all of them can be laid over a
    configuration, which can be shown afterwards if it could be shown before. -/
theorem overrideAll_cases (hvs : ∀ v ∈ vs, Variable.front.toList <+: v.1.toList ∧ WellNamed v)
    (config : Mapping) :
    (∃ before v after b, vs = before ++ v :: after ∧ (∀ u ∈ before, ∀ b, ¬Spoils u b) ∧ Spoils v b ∧
      overrideAll vs config = .error (.breach b)) ∨
      (∀ v ∈ vs, ∀ b, ¬Spoils v b) ∧ ∃ config', overrideAll vs config = .ok config' ∧
        ((Value.map config).literal?.isSome → (Value.map config').literal?.isSome) := by
  induction vs generalizing config with
  | nil => exact .inr ⟨fun _ hv => absurd hv List.not_mem_nil, config, rfl, id⟩
  | cons v vs ih =>
    rw [List.forall_mem_cons] at hvs
    rw [overrideAll, List.foldlM_cons]
    rcases addVariable_of_wellNamed hvs.1.1 hvs.1.2 config with
      ⟨b, hb, hv⟩ | ⟨hreadable, next, hv, hnext⟩
    · rw [hv]
      exact .inl ⟨[], v, vs, b, rfl, fun _ hu => absurd hu List.not_mem_nil, hb, rfl⟩
    · rw [hv]
      rcases ih hvs.2 next with
        ⟨before, u, after, b, rfl, hbefore, hb, hrun⟩ | ⟨hvs', config', hrun, hm⟩
      · exact .inl ⟨v :: before, u, after, b, rfl, List.forall_mem_cons.2 ⟨hreadable, hbefore⟩, hb,
          hrun⟩
      · exact .inr ⟨List.forall_mem_cons.2 ⟨hreadable, hvs'⟩, config', hrun, fun h => hm (hnext h)⟩

variable {files : Files} {env : Variable.Environment} {root : Place} {m : Mapping}

/-- Once the layers are merged, the first variable that cannot be read decides what loading comes to. If
    there is none, and the merged layers can be shown, loading gives a configuration or reports what is
    wrong with it. -/
theorem compute_of_wellNamed (hnames : (env.map Prod.fst).Nodup) (henv : ∀ v ∈ env, WellNamed v)
    (hm : (merged files root).result = .ok m) (bundled : String) (validated : Bool) :
    (∃ v ∈ env, ∃ b, Spoils v b ∧ (∀ u ∈ env, u.1 < v.1 → ∀ c, ¬Spoils u c) ∧
      (compute files env bundled root validated).result = .error (.breach b)) ∨
      (∀ v ∈ env, ∀ b, ¬Spoils v b) ∧ ((Value.map m).literal?.isSome →
        (∃ config, (compute files env bundled root validated).result = .ok config) ∨
          ∃ details, (compute files env bundled root validated).result =
            .error (Error.invalidConfiguration details)) := by
  rw [result_compute, hm]
  dsimp only [bind, Except.bind]
  rw [result_override]
  rcases overrideAll_cases (Variable.forall_mem_relevant henv) m with
    ⟨before, v, after, b, hsplit, hbefore, hb, hrun⟩ | ⟨hreadable, config, hrun, hconfig⟩
  · refine .inl ⟨v, ?_, b, hb, fun u hu hlt c hc => ?_, by rw [hrun]⟩
    · exact (Variable.mem_relevant.1 (hsplit ▸ by simp)).1
    · -- What comes before another variable in the environment does so in the order of the names.
      have hmem : u ∈ Variable.relevant env := Variable.mem_relevant.2 ⟨hu, hc.front⟩
      rw [hsplit, List.mem_append, List.mem_cons] at hmem
      rcases hmem with hmem | rfl | hmem
      · exact hbefore u hmem c hc
      · exact String.lt_irrefl _ hlt
      · exact String.lt_asymm hlt (Variable.lt_of_relevant_eq hnames hsplit u hmem)
  · refine .inr ⟨fun v hv b hb => ?_, fun hliteral => ?_⟩
    · exact hreadable v (Variable.mem_relevant.2 ⟨hv, hb.front⟩) b hb
    · rw [hrun]
      cases validated with
      | false => exact .inl ⟨config, rfl⟩
      | true =>
        dsimp only
        rw [if_pos rfl]
        rcases validate_of_isSome_literal? (hconfig hliteral) with hvalid | ⟨details, hvalid⟩
        · exact .inl ⟨config, by rw [hvalid]; rfl⟩
        · exact .inr ⟨details, by rw [hvalid]⟩

/-- The text of a variable cannot be read exactly if it looks like an integer and has a separator beside
    it or too many digits, or is nested too deeply. Everything else is read: what looks like a number as
    that number, what looks like JSON and is none as the text that it is. Once the layers are merged, and
    if they can be shown and all names are spelled well, a variable that cannot be read is the only
    reason why loading ends in another way than with a configuration or the report of what is wrong
    with it. -/
theorem read_and_compute_cases (s : String) (files : Files) (env : Variable.Environment) (root : Place)
    (bundled : String) (validated : Bool) :
    ((∀ b, Coercion.read s = .error b ↔ Coercion.Unreadable s b) ∧
      ((∀ c ∈ s.toList, ¬Numeral.IsSeparator c) → s.length ≤ Numeral.maxDigits →
        Json.opening s.toList ≤ Json.maxNesting → ∃ v, Coercion.read s = .ok v) ∧
      (∀ ds, Coercion.IsInteger s.toList ds → (∀ b, ¬Coercion.Unreadable s b) →
        ∃ i : Int, Coercion.read s = .ok (.int i) ∧ Numeral.integer? (Text.trim s.toList) = some i) ∧
      (∀ whole fraction, Coercion.IsDecimal s.toList whole fraction →
        ∃ x : Double, Coercion.read s = .ok (.float x) ∧
          Numeral.double? (Text.trim s.toList) = some x) ∧
      (Coercion.isBracketed (Text.trim s.toList) →
        Json.read (Text.trim s.toList) = .error .malformed → Coercion.read s = .ok (.str s))) ∧
    ∀ m, (env.map Prod.fst).Nodup → (∀ v ∈ env, WellNamed v) → (merged files root).result = .ok m →
      (Value.map m).literal?.isSome →
        ((∃ v ∈ env, ∃ b, Spoils v b) → ∃ v ∈ env, ∃ b, Spoils v b ∧
          (∀ u ∈ env, u.1 < v.1 → ∀ c, ¬Spoils u c) ∧
            (compute files env bundled root validated).result = .error (.breach b)) ∧
        ((∀ v ∈ env, ∀ b, ¬Spoils v b) →
          (∃ config, (compute files env bundled root validated).result = .ok config) ∨
            ∃ details, (compute files env bundled root validated).result =
              .error (Error.invalidConfiguration details)) := by
  refine ⟨⟨fun b => Coercion.read_eq_error_iff, Coercion.exists_read_of_short,
    fun ds hds hs => ?_, fun whole fraction => Coercion.exists_read_eq_float, fun hb hjson => ?_⟩,
    fun m hnames henv hm hliteral => ?_⟩
  · obtain ⟨i, hi, hspelled, -⟩ := Coercion.exists_read_eq_int hds hs
    exact ⟨i, hi, hspelled⟩
  · rw [Coercion.read_of_isBracketed hb, hjson]
  · rcases compute_of_wellNamed hnames henv hm bundled validated with
      ⟨v, hv, b, hb, hfirst⟩ | ⟨hreadable, hload⟩
    · exact ⟨fun _ => ⟨v, hv, b, hb, hfirst⟩, fun hnone => absurd hb (hnone v hv b)⟩
    · exact ⟨fun ⟨v, hv, b, hb⟩ => absurd hb (hreadable v hv b), fun _ => hload hliteral⟩

/-- A separator in front of a digit keeps everything from being loaded. Blanks of other kinds, a sign
    and a digit of another script do no harm, but the schema refuses an entry that it does not name. -/
theorem compute_of_separated_digit :
    let spoiled := ("TEXTPARSER_SCAN__LIMIT", "\x1f7")
    let refused := ("TEXTPARSER_SCAN__LIMIT", " +\u0667\u2003")
    (∀ v ∈ [spoiled], WellNamed v) ∧ Spoils spoiled .badNumber ∧
      (∃ b, (compute .empty [spoiled] "" [] true).result = .error (.breach b)) ∧
      (∀ v ∈ [refused], WellNamed v) ∧ (∀ v ∈ [refused], ∀ b, ¬Spoils v b) ∧
      ∃ details, (compute .empty [refused] "" [] true).result =
        .error (Error.invalidConfiguration details) := by
  intro spoiled refused
  have hmerged : (merged .empty []).result = .ok (Mapping.merge [] defaults) := rfl
  have hliteral : (Value.map (Mapping.merge [] defaults)).literal?.isSome := by decide +kernel
  have hdistinct (v : String × String) : ([v].map Prod.fst).Nodup := List.nodup_singleton _
  have hnames (text : String) : ∀ v ∈ [("TEXTPARSER_SCAN__LIMIT", text)], WellNamed v :=
    List.forall_mem_singleton.2 fun _ => ⟨["scan", "limit"], by dsimp only; decide⟩
  have hspoils : Spoils spoiled .badNumber :=
    ⟨⟨by decide, by decide⟩, Coercion.read_eq_error_iff.1 (by decide)⟩
  have hreadable : ∀ v ∈ [refused], ∀ b, ¬Spoils v b := List.forall_mem_singleton.2 fun b hb =>
    Coercion.exists_read_eq_ok_iff.1 ⟨.int 7, by decide⟩ b hb.unreadable
  have hload (text : String) := (read_and_compute_cases text .empty [("TEXTPARSER_SCAN__LIMIT", text)]
    [] "" true).2 _ (hdistinct _) (hnames text) hmerged hliteral
  obtain ⟨v, -, b, -, -, hv⟩ := (hload _).1 ⟨spoiled, List.mem_singleton_self _, _, hspoils⟩
  refine ⟨hnames _, hspoils, ⟨b, hv⟩, hnames _, hreadable, ?_⟩
  refine ((hload _).2 hreadable).resolve_left fun ⟨config, hconfig⟩ => ?_
  have hfails : (compute .empty [refused] "" [] true).result.isOk = false := by decide +kernel
  rw [hconfig] at hfails
  cases hfails

/-- Not every text can be read: not if there are too many digits, nor too many brackets, nor a separator
    beside a digit. -/
theorem exists_unreadable :
    let ones := String.ofList (List.replicate 4301 '1')
    let brackets := String.ofList (List.replicate 2000 '[' ++ [']'])
    (¬∃ v, Coercion.read ones = .ok v) ∧ (¬∃ v, Coercion.read brackets = .ok v) ∧
      ¬∃ v, Coercion.read "\x1f7" = .ok v := by
  refine ⟨?_, ?_, ?_⟩
  · rw [Coercion.read_of_ones (by decide)]
    nofun
  · rw [Coercion.read_of_brackets (by decide)]
    nofun
  · rw [show Coercion.read "\x1f7" = .error .badNumber by decide]
    nofun

end Config

end Stencil
