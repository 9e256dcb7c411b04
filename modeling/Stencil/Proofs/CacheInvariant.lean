import Stencil.Proofs.CacheCoherence
import Stencil.Proofs.LayerPrecedence

/-!
# What the cache holds

Whatever happens to the files and the variables of a workspace, its cache holds configurations that
were computed, each under the key of a project and of a kind, and those under the keys of valid ones
are valid. As keys tell the project and the kind, loading a configuration of one kind leaves all that
is kept of the other kind alone, and what fails to load is not kept at all.

* `Workspace.Turn`: what may be done with a workspace from one moment to the next;
* `Workspace.HoldsComputed`: what is true of the cache, kept by a turn (`HoldsComputed.turn`) and so by
  any number of them (`HoldsComputed.turns`);
* `Workspace.isCached_load_of_ne`: loading leaves other projects and the other kind alone;
* `Workspace.cached_valid_and_apart`: all of this together, after any turns from a cold cache.
-/

namespace Stencil

namespace Workspace

open Config (Cache)
open Relation (ReflTransGen)

/-! ## Turns -/

/-- What may be done with a workspace from one moment to the next. To ask whether a configuration is in
    the cache changes nothing. -/
inductive Turn (w : Workspace) : Workspace → Prop
  /-- The files and the variables are edited, in whatever way. -/
  | edit (files : Files) (env : Variable.Environment) : Turn w { w with files, env }
  /-- The cache is cleared. -/
  | clear : Turn w { w with cache := .empty }
  /-- The configuration of a project is loaded, or fails to load. -/
  | load (root : Option String) (validated : Bool) :
    Turn w (load (root.map .ofString) validated w).1

variable {w w' : Workspace} {root root' : Option String} {validated validated' : Bool} {k : String}
  {config : Mapping}

/-- Every action is some turns. -/
theorem turns_act (w : Workspace) (a : Action) : ReflTransGen Turn w (w.act a) := by
  cases a with
  | write root name content =>
    rw [act, writeLayer]
    split
    · exact .single (.edit _ _)
    · exact .refl
  | remove root name =>
    rw [act, removeLayer]
    split
    · exact .single (.edit _ _)
    · exact .refl
  | setVariable name text => cases text <;> exact .single (.edit _ _)
  | clear => exact .single .clear
  | load root validated => exact .single (.load root validated)
  | get root name =>
    rw [act, get_fst]
    exact .single (.load root true)
  | isCached root validated => exact .refl

theorem turns_after (w : Workspace) (as : List Action) : ReflTransGen Turn w (w.after as) := by
  induction as generalizing w with
  | nil => exact .refl
  | cons a as ih => exact (turns_act w a).trans (ih (w.act a))

/-! ## What is held -/

theorem validate_of_compute {root : Option FilePath}
    (h : (w.compute root true).result = .ok config) : Config.validate (.map config) = .ok () := by
  rw [compute, Config.result_compute] at h
  obtain ⟨m, -, h⟩ := exists_of_bind_eq_ok h
  obtain ⟨m', -, h⟩ := exists_of_bind_eq_ok h
  obtain ⟨u, hvalid, h⟩ := exists_of_bind_eq_ok h
  cases h
  exact hvalid

/-- A workspace whose cache holds configurations under the keys of projects, and valid ones under the
    keys of valid ones. All digests are of one length. -/
structure HoldsComputed (w : Workspace) : Prop where
  cwd : w.cwd.IsClean
  length_digest (s : String) : (w.digest s).length = Digest.keptDigits
  origin {k : String} {config : Mapping} : w.cache.find? k = some config →
    ∃ p validated o, k = Cache.key w.digest p validated o ∧
      (validated = true → Config.validate (.map config) = .ok ())

namespace HoldsComputed

theorem of_cache_eq_empty (h : w.cache = .empty) (hcwd : w.cwd.IsClean)
    (hlen : ∀ s, (w.digest s).length = Digest.keptDigits) : w.HoldsComputed where
  cwd := hcwd
  length_digest := hlen
  origin hfind := by
    rw [h] at hfind
    cases hfind

/-- What is true of the cache stays true. -/
theorem turn (hw : w.HoldsComputed) (h : Turn w w') : w'.HoldsComputed := by
  cases h with
  | edit files env => exact ⟨hw.cwd, hw.length_digest, hw.origin⟩
  | clear => exact of_cache_eq_empty rfl hw.cwd hw.length_digest
  | load root validated =>
    rw [load_fst]
    refine ⟨hw.cwd, hw.length_digest, fun hfind => ?_⟩
    rcases find?_cache_load hfind with hold | ⟨rfl, hcompute⟩
    · exact hw.origin hold
    · refine ⟨_, validated, _, rfl, ?_⟩
      rintro rfl
      exact validate_of_compute hcompute

theorem turns (hw : w.HoldsComputed) (h : ReflTransGen Turn w w') : w'.HoldsComputed := by
  induction h with
  | refl => exact hw
  | tail _ hturn ih => exact ih.turn hturn

/-- What is kept under the key of a valid configuration is valid, wherever its project is and whatever
    was observed. -/
theorem validate_of_find? (hw : w.HoldsComputed) {p : Place} {o : Config.Observed}
    (h : w.cache.find? (Cache.key w.digest p true o) = some config) :
    Config.validate (.map config) = .ok () := by
  obtain ⟨q, validated, o', hkey, hvalid⟩ := hw.origin h
  exact hvalid (Cache.key_parts_inj hw.length_digest hkey).2.1.symm

theorem isClean_placeOf (hw : w.HoldsComputed) (root : Option String) : (w.placeOf root).IsClean :=
  Workspace.isClean_placeOf hw.cwd root

/-- Keys of different projects or different kinds are different, at whatever moments they are made. -/
theorem eq_of_key_eq (hw : w.HoldsComputed) {o o' : Config.Observed}
    (h : Cache.key w.digest (w.placeOf root) validated o =
      Cache.key w.digest (w.placeOf root') validated' o') :
    w.placeOf root = w.placeOf root' ∧ validated = validated' := by
  obtain ⟨hplace, hkind, -⟩ := Cache.key_inj hw.length_digest h (hw.isClean_placeOf root)
    (hw.isClean_placeOf root')
  exact ⟨hplace, hkind⟩

end HoldsComputed

/-! ## What loading does -/

/-- Loading keeps a configuration under its own key, and nothing else. -/
theorem find?_cache_load_of_ne {root : Option FilePath}
    (h : k ≠ w.keyOf (w.rootOf root) validated) :
    (load root validated w).1.cache.find? k = w.cache.find? k := by
  rw [load]
  dsimp only
  split
  · rfl
  · split
    · exact (find?_insert _ _ _ _).trans (if_neg h)
    · rfl

/-- A configuration is as much in the cache as before after one of another project, or of the other
    kind, was loaded. -/
theorem isCached_load_of_ne (hw : w.HoldsComputed)
    (h : (w.placeOf root, validated) ≠ (w.placeOf root', validated')) :
    (load (root.map .ofString) validated w).1.isCached (root'.map .ofString) validated' =
      w.isCached (root'.map .ofString) validated' := by
  have hkey : w.keyOf (w.placeOf root') validated' ≠ w.keyOf (w.placeOf root) validated := by
    intro he
    obtain ⟨hplace, hkind⟩ := hw.eq_of_key_eq he
    exact h (by rw [hplace, hkind])
  have hfind := find?_cache_load_of_ne hkey
  rw [load_fst, isCached, isCached]
  exact congrArg Option.isSome hfind

/-- What fails to load is not in the cache, and the workspace is as it was. -/
theorem not_isCached_of_load_eq_error {root : Option FilePath} {e : Fault}
    (h : (load root validated w).2.result = .error e) :
    (load root validated w).1 = w ∧ w.isCached root validated = false := by
  refine ⟨load_cache_of_error h, ?_⟩
  rw [isCached, Option.isSome_eq_false_iff, Option.isNone_iff_eq_none]
  cases hfind : w.cache.find? (w.keyOf (w.rootOf root) validated) with
  | none => rfl
  | some config =>
    rw [load_of_find? hfind] at h
    cases h

/-- After any turns from a cold cache: what is kept under the key of a valid configuration is valid;
    what fails to load changes nothing and is not kept; loading a configuration changes nothing about
    which of other projects, or of the other kind, are in the cache; and the keys of different projects
    or kinds are different, whatever the paths to the projects are and whatever was observed. -/
theorem cached_valid_and_apart (hcold : w.cache = .empty) (hcwd : w.cwd.IsClean)
    (hlen : ∀ s, (w.digest s).length = Digest.keptDigits) (h : ReflTransGen Turn w w') :
    (∀ p o config, w'.cache.find? (Cache.key w'.digest p true o) = some config →
      Config.validate (.map config) = .ok ()) ∧
    (∀ (root : Option String) validated e,
      (load (root.map .ofString) validated w').2.result = .error e →
        (load (root.map .ofString) validated w').1 = w' ∧
          w'.isCached (root.map .ofString) validated = false) ∧
    (∀ (root root' : Option String) validated validated',
      (w'.placeOf root, validated) ≠ (w'.placeOf root', validated') →
        (load (root.map .ofString) validated w').1.isCached (root'.map .ofString) validated' =
          w'.isCached (root'.map .ofString) validated') ∧
    ∀ (root root' : Option String) validated validated' o o',
      Cache.key w'.digest (w'.placeOf root) validated o =
        Cache.key w'.digest (w'.placeOf root') validated' o' →
          w'.placeOf root = w'.placeOf root' ∧ validated = validated' := by
  have hw := (HoldsComputed.of_cache_eq_empty hcold hcwd hlen).turns h
  exact ⟨fun p o config => hw.validate_of_find?, fun root validated e => not_isCached_of_load_eq_error,
    fun root root' validated validated' => isCached_load_of_ne hw,
    fun root root' validated validated' o o' => hw.eq_of_key_eq⟩

/-- A variable sets an entry that the schema does not have. The configuration is loaded as it is, but
    not as a valid one, so it is in the cache in the one way and not in the other. -/
theorem cached_apart_of_extra_entry :
    let w : Workspace := { vacant with env := [("TEXTPARSER_SCAN__X", "1")] }
    let w' := (load none false w).1
    let e := Error.invalidConfiguration
      ["scan: Additional properties are not allowed ('x' was unexpected)"]
    ReflTransGen Turn vacant w ∧ ReflTransGen Turn vacant w' ∧
      w'.isCached none false = true ∧ (load none true w').2.result = .error e ∧
      (load none true w').1 = w' ∧ w'.isCached none true = false ∧
      w'.keyOf (w'.placeOf (some "/a:validated")) false ≠ w'.keyOf (w'.placeOf (some "/a")) true := by
  intro w w' e
  have hturn : ReflTransGen Turn vacant w := .single (.edit _ _)
  have hturn' : ReflTransGen Turn vacant w' := hturn.tail (.load none false)
  obtain ⟨-, -, hapart, -⟩ := cached_valid_and_apart cold_vacant.cache cold_vacant.cwd
    cold_vacant.length_digest hturn
  obtain ⟨-, hfail, -, hkeys⟩ := cached_valid_and_apart cold_vacant.cache cold_vacant.cwd
    cold_vacant.length_digest hturn'
  have hw' : w' = { w with cache := w'.cache } := load_fst none false w
  have hcached : w'.isCached none false = true := by
    have hok : (w.compute none false).result.isOk = true := by decide +kernel
    cases hresult : (w.compute none false).result with
    | error e =>
      rw [hresult] at hok
      cases hok
    | ok config =>
      have hfind := find?_cache_load_self rfl hresult
      rw [hw', isCached]
      exact congrArg Option.isSome hfind
  have herror : (load none true w').2.result = .error e := by
    have hnot : w'.isCached none true = false := hapart none none false true (by simp)
    rw [isCached, Option.isSome_eq_false_iff, Option.isNone_iff_eq_none] at hnot
    rw [load_result_of_find?_eq_none hnot, hw']
    change (w.compute none true).result = .error e
    decide +kernel
  obtain ⟨hsame, hnot⟩ := hfail none true e herror
  exact ⟨hturn, hturn', hcached, herror, hsame, hnot,
    fun h => Bool.noConfusion (hkeys _ _ _ _ _ _ h).2⟩

end Workspace

end Stencil
