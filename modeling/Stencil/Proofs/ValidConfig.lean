import Stencil.Config.Settings
import Stencil.Proofs.CacheInvariant
import Stencil.Proofs.Delivery
import Stencil.Proofs.SchemaDemands

/-!
# Valid configurations

What the schema of configurations accepts, spelled out, what is told of a value that it refuses, and
what the settings of a configuration are that it accepted.

* `Config.Accepted`, `Config.validate_eq_ok_iff`: the configurations that are accepted;
* `Config.validate_refused`, `Config.validate_of_error_mem`: how all others are refused;
* `Settings.ofAccepted`: the settings of an accepted configuration;
* `Workspace.KeepsValid`: a cache that holds valid configurations where valid ones are asked for;
* `Config.validate_accepts_and_tells`: all of this together, at every point of every run.
-/

namespace Stencil

namespace Config

/-! ## Acceptance -/

/-- What the schema of configurations demands. -/
theorem requirements_schema : schema.requirements =
    [⟨[], .kind .object⟩,
      ⟨["delimiters"], .kind .object⟩, ⟨["delimiters"], .only ["start", "end"]⟩,
      ⟨["delimiters", "start"], .kind .string⟩, ⟨["delimiters", "start"], .minLength 1⟩,
      ⟨["delimiters", "end"], .kind .string⟩, ⟨["delimiters", "end"], .minLength 1⟩,
      ⟨["delimiters"], .has "start"⟩, ⟨["delimiters"], .has "end"⟩,
      ⟨["scan"], .kind .object⟩, ⟨["scan"], .only ["strict_syntax_check"]⟩,
      ⟨["scan", "strict_syntax_check"], .kind .boolean⟩,
      ⟨["logging"], .kind .object⟩, ⟨["logging"], .only ["level"]⟩,
      ⟨["logging", "level"], .kind .string⟩, ⟨["logging", "level"], .choice levelNames⟩,
      ⟨[], .has "delimiters"⟩, ⟨[], .has "scan"⟩, ⟨[], .has "logging"⟩] := by
  simp [schema, delimitersSchema, markerSchema, scanSchema, loggingSchema, Schema.requirements,
    Schema.partNames, Schema.ruleRequirements, Schema.ruleRequirements.partRequirements,
    Demand.ofRule]

/-- What the schema accepts, spelled out. Sections beside these three are free. -/
structure Accepted (config : Mapping) : Prop where
  delimiters : ∃ d : Mapping, config.getStr? "delimiters" = some (.map d) ∧
    (∀ e ∈ d, e.1 = .str "start" ∨ e.1 = .str "end") ∧
    (∃ s, d.getStr? "start" = some (.ofText s) ∧ s ≠ .whole "") ∧
    ∃ s, d.getStr? "end" = some (.ofText s) ∧ s ≠ .whole ""
  scan : ∃ s : Mapping, config.getStr? "scan" = some (.map s) ∧
    (∀ e ∈ s, e.1 = .str "strict_syntax_check") ∧
    ∀ v, s.getStr? "strict_syntax_check" = some v → ∃ b, v = .bool b
  logging : ∃ l : Mapping, config.getStr? "logging" = some (.map l) ∧
    (∀ e ∈ l, e.1 = .str "level") ∧
    ∀ v, l.getStr? "level" = some v → ∃ t ∈ levelNames, v = .str t

end Config

namespace Demand

variable {v : Value}

theorem met_object_iff : (kind .object).Met v ↔ ∃ m, v = .map m := by
  cases v <;> simp [Met, Kind.admits]

theorem met_string_iff : (kind .string).Met v ↔ ∃ s, v = .ofText s := by
  constructor
  · rcases v with (_ | _ | _ | _ | s | t | _) | _ | _ | _ <;> intro h
    case scalar.str => exact ⟨.whole s, rfl⟩
    case scalar.ragged => exact ⟨.ragged t, rfl⟩
    all_goals cases h
  · rintro ⟨s | t, rfl⟩ <;> rfl

/-- A text has a character unless it is the empty one. -/
theorem met_minLength_one_iff {s : CodeText} : (minLength 1).Met (.ofText s) ↔ s ≠ .whole "" := by
  cases s with
  | whole s =>
    change 1 ≤ s.length ↔ _
    rw [Nat.one_le_iff_ne_zero, Ne, Ne, CodeText.whole.injEq, String.length_eq_zero_iff]
  | ragged t => exact iff_of_true (List.length_pos_iff.2 t.codes_ne_nil) nofun

theorem met_boolean_iff : (kind .boolean).Met v ↔ ∃ b, v = .bool b := by
  cases v with
  | scalar s => cases s <;> simp [Met, Kind.admits]
  | _ => simp [Met, Kind.admits]

end Demand

theorem Requirement.not_violated_iff {r : Requirement} {v : Value} :
    ¬r.Violated v ↔ ∀ x, v.at? r.path = some x → r.demand.Met x := by
  simp [Violated]

namespace Config

theorem at?_one (m : Mapping) (k : String) : (Value.map m).at? [k] = m.getStr? k := by
  rw [Value.at?]
  cases m.getStr? k with
  | none => rfl
  | some v => cases v <;> rfl

theorem at?_two {m d : Mapping} {k : String} (h : m.getStr? k = some (.map d)) (l : String) :
    (Value.map m).at? [k, l] = d.getStr? l := by
  rw [Value.at?, h, Option.bind_some, at?_one]

theorem exists_section {m : Mapping} {name : String}
    (hhas : ∀ x, (Value.map m).at? [] = some x → (Demand.has name).Met x)
    (hkind : ∀ x, (Value.map m).at? [name] = some x → (Demand.kind .object).Met x) :
    ∃ d : Mapping, m.getStr? name = some (.map d) := by
  obtain ⟨w, hw⟩ := Option.isSome_iff_exists.1 (hhas (.map m) rfl)
  obtain ⟨d, rfl⟩ := Demand.met_object_iff.1 (hkind w ((at?_one m name).trans hw))
  exact ⟨d, hw⟩

theorem exists_marker {m d : Mapping} {k l : String} (hd : m.getStr? k = some (.map d))
    (hhas : ∀ x, (Value.map m).at? [k] = some x → (Demand.has l).Met x)
    (hkind : ∀ x, (Value.map m).at? [k, l] = some x → (Demand.kind .string).Met x)
    (hlen : ∀ x, (Value.map m).at? [k, l] = some x → (Demand.minLength 1).Met x) :
    ∃ s, d.getStr? l = some (.ofText s) ∧ s ≠ .whole "" := by
  obtain ⟨x, hx⟩ := Option.isSome_iff_exists.1 (hhas (.map d) ((at?_one m k).trans hd))
  have hat := (at?_two hd l).trans hx
  obtain ⟨s, rfl⟩ := Demand.met_string_iff.1 (hkind x hat)
  exact ⟨s, hx, Demand.met_minLength_one_iff.1 (hlen _ hat)⟩

/-- Nothing that the schema demands is violated by what is accepted, and by nothing else. -/
theorem forall_not_violated_iff {v : Value} :
    (∀ r ∈ schema.requirements, ¬r.Violated v) ↔ ∃ m, v = .map m ∧ Accepted m := by
  simp only [requirements_schema, List.forall_mem_cons, Requirement.not_violated_iff]
  constructor
  · rintro ⟨hroot, hd, hdonly, hsk, hsl, hek, hel, hds, hde, hc, hconly, hcb, hl, hlonly, -, hlc,
      hhd, hhc, hhl, -⟩
    obtain ⟨m, rfl⟩ := Demand.met_object_iff.1 (hroot v (by cases v <;> rfl))
    obtain ⟨d, hdm⟩ := exists_section hhd hd
    obtain ⟨c, hcm⟩ := exists_section hhc hc
    obtain ⟨l, hlm⟩ := exists_section hhl hl
    refine ⟨m, rfl, ⟨d, hdm, ?_, exists_marker hdm hds hsk hsl, exists_marker hdm hde hek hel⟩,
      ⟨c, hcm, ?_, fun x hx => Demand.met_boolean_iff.1 (hcb x ((at?_two hcm _).trans hx))⟩,
      l, hlm, ?_, fun x hx => hlc x ((at?_two hlm _).trans hx)⟩
    · simpa [Demand.Met] using hdonly _ ((at?_one m _).trans hdm)
    · simpa [Demand.Met] using hconly _ ((at?_one m _).trans hcm)
    · simpa [Demand.Met] using hlonly _ ((at?_one m _).trans hlm)
  · rintro ⟨m, rfl, ⟨d, hd, hdonly, ⟨s, hs, hsne⟩, t, ht, htne⟩, ⟨c, hc, hconly, hcb⟩,
      l, hl, hlonly, hlc⟩
    have hself : (Value.map m).at? [] = some (.map m) := rfl
    have hkind (s : CodeText) : (Demand.kind .string).Met (.ofText s) :=
      Demand.met_string_iff.2 ⟨s, rfl⟩
    have hlen {s : CodeText} (h : s ≠ .whole "") : (Demand.minLength 1).Met (.ofText s) :=
      Demand.met_minLength_one_iff.2 h
    simp only [hself, at?_one, at?_two hd, at?_two hc, at?_two hl, hd, hc, hl, hs, ht,
      Option.some.injEq, forall_eq', Demand.Met, Option.isSome_some, List.mem_cons,
      List.not_mem_nil, or_false, exists_eq_or_imp, exists_eq_left]
    refine ⟨rfl, rfl, hdonly, hkind s, hlen hsne, hkind t, hlen htne, trivial, trivial, rfl, hconly,
      fun x hx => ?_, rfl, hlonly, fun x hx => ?_, hlc, trivial, trivial, trivial, fun _ h => h.elim⟩
    · obtain ⟨b, rfl⟩ := hcb x hx
      rfl
    · obtain ⟨t, -, rfl⟩ := hlc x hx
      rfl

theorem found_eq_nil_iff {v : Value} : schema.found v = [] ↔ ∃ m, v = .map m ∧ Accepted m := by
  rw [← forall_not_violated_iff, Schema.found, List.filterMap_eq_nil_iff]
  refine forall₂_congr fun r _ => ?_
  rw [← Requirement.isSome_violation?_iff, Option.not_isSome_iff_eq_none]

/-- The bundled layer is accepted. -/
theorem accepted_defaults : Accepted (Mapping.merge [] defaults) where
  delimiters := ⟨_, rfl, by decide, ⟨.whole "*(", rfl, by decide⟩, .whole ")*", rfl, by decide⟩
  scan := ⟨_, rfl, by decide, fun v hv => ⟨false, (Option.some.inj hv).symm⟩⟩
  logging := ⟨_, rfl, by decide, fun v hv => ⟨"WARNING", by decide, (Option.some.inj hv).symm⟩⟩

/-! ## Refusal -/

variable {v : Value}

/-- If all violations can be told, a value is refused with one detail for each of them, in the order of
    their paths. -/
theorem validate_of_found_eq {vs : List Violation} (h : schema.found v = vs.map .ok) (hne : vs ≠ []) :
    validate v = .error (Error.invalidConfiguration
      ((sort (fun a b => Path.notAfter a.path b.path) vs).map Violation.detail)) := by
  have hsort : sort (fun a b => Path.notAfter a.path b.path) vs ≠ [] := fun hnil =>
    hne ((hnil ▸ sort_perm (fun a b : Violation => Path.notAfter a.path b.path) vs).nil_eq).symm
  rw [validate, Schema.ordered_eq_ok h]
  split
  · next heq => cases heq
  · next heq => exact absurd (Except.ok.inj heq) hsort
  · next heq => rw [Except.ok.inj heq]

/-- If one of them cannot be told, nothing is. -/
theorem validate_of_error_mem {b : Breach} (h : .error b ∈ schema.found v) :
    validate v = .error (.breach .longInteger) := by
  rw [validate, Schema.ordered_eq_error h]

/-- A value is valid if the schema accepts it. -/
theorem validate_eq_ok_iff : validate v = .ok () ↔ ∃ m, v = .map m ∧ Accepted m := by
  rw [← found_eq_nil_iff]
  rcases Schema.eq_map_ok_or_exists_error (schema.found v) with ⟨vs, hvs⟩ | ⟨b, hb⟩
  · by_cases hne : vs = []
    · subst hne
      rw [hvs, validate, Schema.ordered_eq_ok hvs]
      exact iff_of_true rfl rfl
    · rw [validate_of_found_eq hvs hne, hvs, List.map_eq_nil_iff]
      exact iff_of_false nofun hne
  · rw [validate_of_error_mem hb]
    exact iff_of_false nofun (List.ne_nil_of_mem hb)

/-- A value is refused with all its violations, told one by one in the order of their paths, if each of
    them can be told. -/
theorem validate_refused (hv : ¬∃ m, v = .map m ∧ Accepted m)
    (htold : ∀ x ∈ schema.found v, ∃ w, x = .ok w) :
    ∃ vs : List Violation, vs ≠ [] ∧ (vs.map .ok).Perm (schema.found v) ∧
      vs.Pairwise (fun a b => Path.notAfter a.path b.path) ∧
      validate v = .error (Error.invalidConfiguration (vs.map Violation.detail)) := by
  rcases Schema.eq_map_ok_or_exists_error (schema.found v) with ⟨vs, hvs⟩ | ⟨b, hb⟩
  · have hne : vs ≠ [] := by
      rintro rfl
      exact hv (found_eq_nil_iff.1 hvs)
    have hperm := sort_perm (fun a b : Violation => Path.notAfter a.path b.path) vs
    refine ⟨_, fun hnil => hne ((hnil ▸ hperm).nil_eq).symm, ?_, ?_, validate_of_found_eq hvs hne⟩
    · rw [hvs]
      exact hperm.map _
    · exact @pairwise_sort Violation (fun a b => Path.notAfter a.path b.path)
        (fun a b => Path.notAfter_total a.path b.path) (fun _ _ _ => Path.notAfter_trans) vs
  · obtain ⟨w, hw⟩ := htold _ hb
    cases hw

end Config

/-! ## Settings -/

namespace Settings

variable {config m : Mapping} {name entry : String}

theorem sectionOf_eq (h : config.getStr? name = some (.map m)) : sectionOf config name = .map m := by
  rw [sectionOf, h]
  cases m with
  | nil => rfl
  | cons e m => rfl

theorem entryOf_eq (h : config.getStr? name = some (.map m)) (entry : String) :
    entryOf config name entry = .ok (m.getStr? entry) := by
  rw [entryOf, sectionOf_eq h]

/-- What the settings of an accepted configuration are: the markers and the mode that it names, and
    one of the five levels. The markers are its texts as they can be shown. -/
structure OfAccepted (config : Mapping) : Prop where
  markers : ∃ (m : Markers) (s t : CodeText), Settings.markers config = .ok m ∧
    (Value.map config).at? ["delimiters", "start"] = some (.ofText s) ∧ s.shown = m.start ∧
    (Value.map config).at? ["delimiters", "end"] = some (.ofText t) ∧ t.shown = m.stop
  isStrict : ∃ b, Settings.isStrict config = .ok b ∧
    ((Value.map config).at? ["scan", "strict_syntax_check"]).getD (.bool false) = .bool b
  level : ∃ l : Level, Settings.levelName config = .ok l.name ∧
    Settings.levelReading config = .ok (.weight l.weight) ∧ Settings.level config = .ok l

/-- The five levels are read back from their names. -/
theorem read_name (l : Level) :
    Level.read l.name = .weight l.weight ∧ Level.ofReading (.weight l.weight) = l := by
  cases l <;> decide

/-- The spellings that the schema admits are those of the five levels. -/
theorem exists_level_of_mem : ∀ t ∈ Config.levelNames, t ≠ "" ∧
    ∃ l ∈ [Level.debug, .info, .warning, .error, .critical],
      String.ofList (t.toList.map Char.toUpper) = l.name := by
  decide

theorem level_of_levelName {l : Level} (h : levelName config = .ok l.name) :
    levelReading config = .ok (.weight l.weight) ∧ level config = .ok l := by
  rw [level, levelReading, h, Except.map, Except.map, (read_name l).1, (read_name l).2]
  exact ⟨rfl, rfl⟩

/-- The settings of an accepted configuration. -/
theorem ofAccepted (h : Config.Accepted config) : OfAccepted config := by
  obtain ⟨⟨d, hd, -, ⟨s, hs, hsne⟩, t, ht, htne⟩, ⟨c, hc, -, hcb⟩, l, hl, -, hlc⟩ := h
  have hstart := (Config.at?_two hd "start").trans hs
  have hstop := (Config.at?_two hd "end").trans ht
  refine ⟨⟨⟨s.shown, t.shown, CodeText.shown_ne hsne, CodeText.shown_ne htne⟩, s, t, ?_, hstart, rfl, hstop, rfl⟩,
    ?_, ?_⟩
  · rw [markers, marker, marker, entryOf_eq hd, entryOf_eq hd, hs, ht]
    change (Markers.ofValues (.ofText s) (.ofText t)).mapError Fault.error = _
    rw [Markers.ofValues, Markers.marker, Markers.marker, Value.shown?_ofText, Value.shown?_ofText]
    simp only [dif_pos (CodeText.shown_ne hsne), dif_pos (CodeText.shown_ne htne)]
    rfl
  · rw [isStrict, entryOf_eq hc, Config.at?_two hc]
    cases hb : c.getStr? "strict_syntax_check" with
    | none => exact ⟨false, rfl, rfl⟩
    | some v =>
      obtain ⟨b, rfl⟩ := hcb v hb
      exact ⟨b, rfl, rfl⟩
  · have hname : ∃ l : Level, levelName config = .ok l.name := by
      rw [levelName, entryOf_eq hl]
      cases hlevel : l.getStr? "level" with
      | none => exact ⟨.warning, rfl⟩
      | some v =>
        obtain ⟨t, ht, rfl⟩ := hlc v hlevel
        obtain ⟨hne, l, -, hl⟩ := exists_level_of_mem t ht
        have htruth : (Value.str t).truth = true := bne_iff_ne.2 hne
        refine ⟨l, ?_⟩
        rw [← hl]
        change ((textOf (if (Value.str t).truth then Value.str t else .str "WARNING").text?).mapError
          Fault.breach >>= fun name => Except.ok (String.ofList (name.toList.map Char.toUpper))) = _
        rw [if_pos htruth]
        rfl
    obtain ⟨l, hl⟩ := hname
    exact ⟨l, hl, level_of_levelName hl⟩

end Settings

/-! ## Values that cannot be shown -/

namespace Config

/-- A configuration with a value as its start marker. -/
def withStart (v : Value) : Value :=
  .map [(.str "delimiters", .map [(.str "start", v), (.str "end", .str ")*")]),
    (.str "scan", .map []), (.str "logging", .map [])]

/-- A start marker that is an integer of too many digits violates the schema, but this cannot be
    told. -/
theorem mem_found_withStart {i : Int} (hi : 10 ^ Numeral.maxDigits ≤ i.natAbs) :
    .error .longInteger ∈ schema.found (withStart (.int i)) := by
  have hmem : (⟨["delimiters", "start"], .kind .string⟩ : Requirement) ∈ schema.requirements := by
    rw [requirements_schema]
    decide
  have hmessage : (Demand.kind .string).message (.int i) = .error .longInteger := by
    change (textOf (Numeral.intText? i)).map _ = _
    rw [Numeral.intText?_eq_none_iff.2 hi]
    rfl
  refine List.mem_filterMap.2 ⟨_, hmem, ?_⟩
  change (if (Demand.kind .string).Met (.int i) then none
    else some (((Demand.kind .string).message (.int i)).map _)) = _
  rw [if_neg nofun, hmessage]
  rfl

theorem le_natAbs_pow {n : Nat} : 10 ^ n ≤ (10 ^ n : Int).natAbs := (Int.natAbs_pow 10 n).ge

end Config

/-! ## Valid configurations in the cache -/

/-- A path to a place without steps up leads there. -/
theorem FilePath.place_ofPlace {p : Place} (h : ".." ∉ p) (cwd : Place) :
    (ofPlace p).place cwd = p := by
  have hsteps (front : Place) : p.foldl step front = front ++ p := by
    induction p generalizing front with
    | nil => exact (List.append_nil _).symm
    | cons name p ih =>
      rw [List.mem_cons, not_or] at h
      rw [List.foldl_cons, step, if_neg (Ne.symm h.1), ih h.2, List.append_assoc]
      rfl
  exact hsteps []

namespace Workspace

/-- A workspace whose cache holds valid configurations wherever valid ones are asked for. -/
structure KeepsValid (w : Workspace) : Prop where
  cwd : w.cwd.IsClean
  cached {p : Place} {config : Mapping} :
    p.IsClean → w.cache.find? (w.keyOf p true) = some config → Config.validate (.map config) = .ok ()

variable {w : Workspace} {root : Option FilePath} {config : Mapping}

/-- What is loaded as a valid configuration is one. -/
theorem KeepsValid.validate_of_load (hw : w.KeepsValid) (hroot : (w.rootOf root).IsClean)
    (h : (load root true w).2.result = .ok config) : Config.validate (.map config) = .ok () := by
  cases hfind : w.cache.find? (w.keyOf (w.rootOf root) true) with
  | none =>
    rw [load_result_of_find?_eq_none hfind] at h
    exact validate_of_compute h
  | some c =>
    rw [load_of_find? hfind] at h
    cases h
    exact hw.cached hroot hfind

theorem HoldsComputed.keepsValid (hw : w.HoldsComputed) : w.KeepsValid where
  cwd := hw.cwd
  cached _ hfind := hw.validate_of_find? hfind

/-- At every point of a run from a cold cache, valid configurations are kept only. -/
theorem Cold.keepsValid_after (hw : w.Cold) (as : List Action) : (w.after as).KeepsValid :=
  have hstart := HoldsComputed.of_cache_eq_empty hw.cache hw.cwd hw.length_digest
  (hstart.turns (turns_after w as)).keepsValid

end Workspace

/-! ## All of it -/

namespace Config

/-- A value is valid exactly if the schema accepts it, as it is spelled out. Any other value is refused,
    with one detail for each violation, some of them, in the order of their paths, exactly if all
    violations can be told; and if one of them holds an integer of too many digits, the check breaks
    off. So the settings of whatever is loaded as a valid configuration are there, at every point of
    every run from a cold cache. -/
theorem validate_accepts_and_tells (v : Value) (w : Workspace) (as : List Workspace.Action)
    (root : Option String) (config : Mapping) :
    (validate v = .ok () ↔ ∃ m, v = .map m ∧ Accepted m) ∧
    ((¬∃ m, v = .map m ∧ Accepted m) →
      ((∀ x ∈ schema.found v, ∃ d, x = .ok d) ↔ ∃ vs : List Violation, vs ≠ [] ∧
        (vs.map .ok).Perm (schema.found v) ∧
        vs.Pairwise (fun a b => Path.notAfter a.path b.path) ∧
        validate v = .error (Error.invalidConfiguration (vs.map Violation.detail))) ∧
      ∀ b, .error b ∈ schema.found v → validate v = .error (.breach .longInteger)) ∧
    (w.Cold → (Workspace.load (root.map .ofString) true (w.after as)).2.result = .ok config →
      Settings.OfAccepted config) := by
  refine ⟨validate_eq_ok_iff, fun hv => ⟨⟨validate_refused hv, ?_⟩, fun b hb =>
    validate_of_error_mem hb⟩, fun hw hload => ?_⟩
  · rintro ⟨vs, -, hperm, -⟩ x hx
    obtain ⟨d, -, rfl⟩ := List.mem_map.1 (hperm.mem_iff.2 hx)
    exact ⟨d, rfl⟩
  · have hcwd : (w.after as).cwd.IsClean := (Workspace.after_frame w as).1 ▸ hw.cwd
    have hvalid := (hw.keepsValid_after as).validate_of_load
      (Workspace.isClean_placeOf hcwd root) hload
    obtain ⟨m, hm, hm'⟩ := validate_eq_ok_iff.1 hvalid
    cases hm
    exact Settings.ofAccepted hm'

/-- The empty mapping lacks three sections. A start marker that is an integer of too many digits is no
    text, but it cannot be shown. Without files and variables, the settings are those of the bundled
    layer. -/
theorem validate_empty_and_long_start :
    let v := Value.map []
    let w := withStart (.int (10 ^ Numeral.maxDigits))
    (¬∃ m, v = .map m ∧ Accepted m) ∧ (¬∃ m, w = .map m ∧ Accepted m) ∧
      (∃ vs : List Violation, vs.length = 3 ∧
        validate v = .error (Error.invalidConfiguration (vs.map Violation.detail))) ∧
      validate w = .error (.breach .longInteger) ∧
      ∃ config, (Workspace.load none true (Workspace.vacant.after [])).2.result = .ok config ∧
        Settings.OfAccepted config := by
  intro v w
  have hv : schema.found v = [.ok ⟨[], "'delimiters' is a required property"⟩,
      .ok ⟨[], "'scan' is a required property"⟩, .ok ⟨[], "'logging' is a required property"⟩] := by
    rw [Schema.found, requirements_schema]
    rfl
  have htold : ∀ x ∈ schema.found v, ∃ d, x = .ok d := by
    rw [hv]
    simp
  have hw : .error .longInteger ∈ schema.found w := mem_found_withStart le_natAbs_pow
  have hnotv : ¬∃ m, v = .map m ∧ Accepted m := fun h => by
    have hnil := found_eq_nil_iff.2 h
    rw [hv] at hnil
    cases hnil
  have hnotw : ¬∃ m, w = .map m ∧ Accepted m := fun h => by
    rw [found_eq_nil_iff.2 h] at hw
    cases hw
  have hall (x : Value) := validate_accepts_and_tells x Workspace.vacant [] none
    (Mapping.merge [] defaults)
  obtain ⟨vs, -, hperm, -, hvs⟩ := ((hall v).2.1 hnotv).1.1 htold
  refine ⟨hnotv, hnotw, ⟨vs, ?_, hvs⟩, ((hall w).2.1 hnotw).2 _ hw, ?_⟩
  · rw [← vs.length_map Except.ok, hperm.length_eq, hv]
    rfl
  · have hload : (Workspace.load none true (Workspace.vacant.after [])).2.result =
        .ok (Mapping.merge [] defaults) := by
      rw [Workspace.load_result_of_find?_eq_none rfl, Workspace.compute, result_compute]
      change (validate (.map (Mapping.merge [] defaults)) >>= fun _ => Except.ok _) = _
      rw [validate_eq_ok_iff.2 ⟨_, rfl, accepted_defaults⟩]
      rfl
    exact ⟨_, hload, (hall v).2.2 Workspace.cold_vacant hload⟩

/-- The start marker is no text, but it is not told: it is an integer of too many digits. -/
theorem validate_long_start :
    let v := withStart (.int (10 ^ Numeral.maxDigits))
    (¬∃ m, v = .map m ∧ Accepted m) ∧
      ∀ details, validate v ≠ .error (Error.invalidConfiguration details) := by
  intro v
  have hv : .error .longInteger ∈ schema.found v := mem_found_withStart le_natAbs_pow
  refine ⟨fun h => ?_, fun details h => ?_⟩
  · rw [found_eq_nil_iff.2 h] at hv
    cases hv
  · rw [validate_of_error_mem hv] at h
    cases h

end Config

end Stencil
