import Mathlib.Data.List.Induction
import Stencil.Proofs.CacheKey
import Stencil.Proofs.Observation
import Stencil.Workspace

/-!
# Runs of a workspace

What is done in a workspace, one action after the other: files of the configurations of projects are
written and removed, variables are set, and configurations are loaded.

* `Workspace.Action`, `Workspace.after`: the actions, and the workspace after some of them;
* `reflTransGen_files_act`: an action changes the files step by step;
* `exists_origin`: what is in the cache was computed at an earlier point of the run.
-/

namespace Stencil

open Config (IsBare projectDirectory)
open Relation (ReflTransGen)

/-! ## Files of a project -/

namespace Files

/-- A directory made, unless something is there already. -/
def withDirectory (fs : Files) (p : Place) : Files :=
  if (fs.find? p).isSome then fs else fs.put p .directory

/-- The directories of the configuration of a project made, unless something is there already. -/
def withProjectDirectory (fs : Files) (root : Place) : Files :=
  (fs.withDirectory (root ++ projectDirectory.dropLast)).withDirectory (root ++ projectDirectory)

/-- A change of files while files of configurations are written and removed. The names that are bare
    are left alone. -/
abbrev LayerStep : Files → Files → Prop := Step IsBare (· ∈ projectDirectory)

variable {fs : Files} {p q root : Place} {name : String}

theorem find?_withDirectory_of_ne (h : q ≠ p) : (fs.withDirectory p).find? q = fs.find? q := by
  rw [withDirectory]
  split
  · rfl
  · exact find?_put_of_ne fs h _

theorem reflTransGen_withDirectory (hp : fs.find? p = some .directory)
    (hm : name ∈ projectDirectory) :
    ReflTransGen LayerStep fs (fs.withDirectory (p ++ [name])) := by
  have hf : ¬IsBare name := by
    rintro (rfl | rfl)
    · exact absurd hm (by decide)
    · exact absurd hm (by decide)
  rw [withDirectory]
  split
  · exact .refl
  · next hn => exact .single (.make hp (fun h => hn (by rw [h]; rfl)) hf hm)

/-- The directories of a project are made one in the other. If there are directories all the way down
    afterwards, the project is in a directory. -/
theorem reflTransGen_withProjectDirectory
    (h : ∀ r n s, root ++ projectDirectory = r ++ n :: s →
      (fs.withProjectDirectory root).find? r = some .directory) :
    ReflTransGen LayerStep fs (fs.withProjectDirectory root) := by
  have hsplit : root ++ projectDirectory = root ++ projectDirectory.dropLast ++ ["config"] := by
    rw [List.append_assoc]
    rfl
  have hne {p r : Place} (hr : r ≠ []) : p ≠ p ++ r := fun he => hr (List.self_eq_append_right.1 he)
  have hroot := h root ".textparser" ["config"] rfl
  have hdir := h (root ++ projectDirectory.dropLast) "config" [] hsplit
  rw [withProjectDirectory] at hroot hdir ⊢
  rw [find?_withDirectory_of_ne (hne (by decide)), find?_withDirectory_of_ne (hne (by decide))]
    at hroot
  rw [hsplit, find?_withDirectory_of_ne (hne (by decide))] at hdir
  rw [hsplit]
  exact (reflTransGen_withDirectory hroot (by decide)).trans
    (reflTransGen_withDirectory hdir (by decide))

end Files

namespace Workspace

/-- The place of the project that the text of a path leads to; without a text, of the one that is
    worked in. -/
def placeOf (w : Workspace) (root : Option String) : Place := w.rootOf (root.map .ofString)

/-- A file of the configuration of a project written, if it can be. -/
def writeLayer (w : Workspace) (root : Place) (name : String) (content : ByteArray) : Workspace :=
  match (w.files.withProjectDirectory root).write w.cwd (Config.layerPath root name) content with
  | .ok files => { w with files }
  | .error _ => w

/-- A file of the configuration of a project removed, if there is one. -/
def removeLayer (w : Workspace) (root : Place) (name : String) : Workspace :=
  match w.files.delete w.cwd (Config.layerPath root name) with
  | .ok files => { w with files }
  | .error _ => w

/-! ## Actions -/

/-- What is done in a workspace. -/
inductive Action
  /-- A file of the configuration of a project is written. -/
  | write (root : Option String) (name : FileName) (content : ByteArray)
  /-- A file of the configuration of a project is removed. -/
  | remove (root : Option String) (name : FileName)
  /-- A variable is set, or removed. -/
  | setVariable (name : String) (text : Option String)
  /-- The cache is cleared. -/
  | clear
  /-- The configuration of a project is loaded. -/
  | load (root : Option String) (validated : Bool)
  /-- An entry of the configuration of a project is looked up. -/
  | get (root : Option String) (name : String)
  /-- It is asked whether the configuration of a project is in the cache. -/
  | isCached (root : Option String) (validated : Bool)

/-- The names of the files that an action writes or removes are of a kind. -/
def Action.Edits (allowed : String → Prop) : Action → Prop
  | .write _ name _ => allowed name.text
  | .remove _ name => allowed name.text
  | _ => True

theorem Action.Edits.mono {allowed allowed' : String → Prop} {a : Action} (h : a.Edits allowed)
    (himp : ∀ name, allowed name → allowed' name) : a.Edits allowed' := by
  cases a with
  | write root name content => exact himp _ h
  | remove root name => exact himp _ h
  | _ => exact trivial

/-- The workspace after an action. -/
def act (w : Workspace) : Action → Workspace
  | .write root name content => w.writeLayer (w.placeOf root) name.text content
  | .remove root name => w.removeLayer (w.placeOf root) name.text
  | .setVariable name text => w.setVariable name text
  | .clear => { w with cache := .empty }
  | .load root validated => (load (root.map .ofString) validated w).1
  | .get root name => (get (root.map .ofString) name w).1
  | .isCached _ _ => w

/-- The workspace after some actions. -/
def after (w : Workspace) (actions : List Action) : Workspace := actions.foldl act w

variable {w : Workspace} {root : Place} {name : String} {content : ByteArray}

/-! ## The files along a run -/

/-- A file is written behind the directories that it needs. -/
theorem reflTransGen_writeLayer (hroot : root.IsClean) (hname : IsName name)
    (hbare : ¬IsBare name) :
    ReflTransGen Files.LayerStep w.files (w.writeLayer root name content).files := by
  rw [writeLayer]
  split
  · next files h =>
    obtain ⟨rfl, hn, hway⟩ := Files.write_ofPlace_eq_ok (Config.not_mem_layerPlace hroot hname.ne_up) h
    refine (Files.reflTransGen_withProjectDirectory fun r n s hs => ?_).tail
      (.write content (hway _ name [] rfl) hn hbare)
    exact hway r n (s ++ [name]) (by rw [hs, List.append_assoc]; rfl)
  · exact .refl

theorem reflTransGen_removeLayer (hroot : root.IsClean) (hname : IsName name)
    (hbare : ¬IsBare name) :
    ReflTransGen Files.LayerStep w.files (w.removeLayer root name).files := by
  rw [removeLayer]
  split
  · next files h =>
    obtain ⟨rfl, hn, hway⟩ := Files.delete_ofPlace_eq_ok (Config.not_mem_layerPlace hroot hname.ne_up) h
    exact .single (.remove (hway _ name [] rfl) hn hbare)
  · exact .refl

variable {a : Action} {as bs : List Action} {k : String} {config : Mapping}

/-- A look at the configuration of a project leaves what loading it leaves. -/
theorem get_fst (root : Option FilePath) (name : String) (w : Workspace) :
    (get root name w).1 = (load root true w).1 := by
  rw [get]
  dsimp only [bind]
  cases (load root true w).2.result <;> rfl

/-- Loading changes the cache, and nothing else. -/
theorem load_fst (root : Option FilePath) (validated : Bool) (w : Workspace) :
    (load root validated w).1 = { w with cache := (load root validated w).1.cache } := by
  rw [load]
  dsimp only
  split
  · rfl
  · split <;> rfl

/-- What stays the same all the time. -/
theorem act_frame (w : Workspace) (a : Action) :
    (w.act a).cwd = w.cwd ∧ (w.act a).digest = w.digest ∧ (w.act a).bundled = w.bundled := by
  cases a with
  | write root name content =>
    rw [act, writeLayer]
    split <;> exact ⟨rfl, rfl, rfl⟩
  | remove root name =>
    rw [act, removeLayer]
    split <;> exact ⟨rfl, rfl, rfl⟩
  | setVariable name text => cases text <;> exact ⟨rfl, rfl, rfl⟩
  | clear => exact ⟨rfl, rfl, rfl⟩
  | load root validated =>
    rw [act, load_fst]
    exact ⟨rfl, rfl, rfl⟩
  | get root name =>
    rw [act, get_fst, load_fst]
    exact ⟨rfl, rfl, rfl⟩
  | isCached root validated => exact ⟨rfl, rfl, rfl⟩

theorem after_append (w : Workspace) (as bs : List Action) :
    w.after (as ++ bs) = (w.after as).after bs := List.foldl_append

theorem after_frame (w : Workspace) (as : List Action) : (w.after as).cwd = w.cwd ∧
    (w.after as).digest = w.digest ∧ (w.after as).bundled = w.bundled := by
  induction as generalizing w with
  | nil => exact ⟨rfl, rfl, rfl⟩
  | cons a as ih =>
    obtain ⟨hcwd, hdigest, hbundled⟩ := act_frame w a
    obtain ⟨hcwd', hdigest', hbundled'⟩ := ih (w.act a)
    exact ⟨hcwd'.trans hcwd, hdigest'.trans hdigest, hbundled'.trans hbundled⟩

theorem isClean_placeOf (h : w.cwd.IsClean) (root : Option String) : (w.placeOf root).IsClean := by
  cases root with
  | none => exact h
  | some s => exact FilePath.isClean_place h s

/-- An action changes the files step by step, unless it edits a file with a bare name. -/
theorem reflTransGen_files_act (h : w.cwd.IsClean) (ha : a.Edits fun name => ¬IsBare name) :
    ReflTransGen Files.LayerStep w.files (w.act a).files := by
  cases a with
  | write root name content => exact reflTransGen_writeLayer (isClean_placeOf h root) name.isName ha
  | remove root name => exact reflTransGen_removeLayer (isClean_placeOf h root) name.isName ha
  | setVariable name text => cases text <;> exact .refl
  | clear => exact .refl
  | load root validated =>
    rw [act, load_fst]
  | get root name =>
    rw [act, get_fst, load_fst]
  | isCached root validated => exact .refl

theorem reflTransGen_files_after (h : w.cwd.IsClean)
    (has : ∀ a ∈ as, a.Edits fun name => ¬IsBare name) :
    ReflTransGen Files.LayerStep w.files (w.after as).files := by
  induction as generalizing w with
  | nil => exact .refl
  | cons a as ih =>
    obtain ⟨ha, has⟩ := List.forall_mem_cons.1 has
    have hcwd : (w.act a).cwd.IsClean := (act_frame w a).1 ▸ h
    exact (reflTransGen_files_act h ha).trans (ih hcwd has)

/-! ## The cache along a run -/

theorem find?_insert (c : Config.Cache) (key k : String) (config : Mapping) :
    (c.insert key config).find? k = if k = key then some config else c.find? k := by
  rw [Config.Cache.find?, Config.Cache.insert, List.lookup_cons]
  by_cases hk : k = key
  · rw [if_pos hk, beq_iff_eq.2 hk]
  · rw [if_neg hk, beq_eq_false_iff_ne.2 hk]
    exact Files.lookup_filter_ne c.entries hk

theorem cache_writeLayer (w : Workspace) (root : Place) (name : String) (content : ByteArray) :
    (w.writeLayer root name content).cache = w.cache := by
  rw [writeLayer]
  split <;> rfl

theorem cache_removeLayer (w : Workspace) (root : Place) (name : String) :
    (w.removeLayer root name).cache = w.cache := by
  rw [removeLayer]
  split <;> rfl

/-- With a cold cache, a configuration is computed and kept. -/
theorem find?_cache_load_self {root : Option FilePath} {validated : Bool} (hcold : w.cache = .empty)
    (h : (w.compute root validated).result = .ok config) :
    (load root validated w).1.cache.find? (w.keyOf (w.rootOf root) validated) = some config := by
  have hnone : w.cache.find? (w.keyOf (w.rootOf root) validated) = none := by
    rw [hcold]
    rfl
  rw [load, hnone]
  dsimp only
  rw [h]
  exact (find?_insert _ _ _ _).trans (if_pos rfl)

/-- What is in the cache after loading was there before, or it was computed just then. -/
theorem find?_cache_load {root : Option FilePath} {validated : Bool}
    (h : (load root validated w).1.cache.find? k = some config) :
    w.cache.find? k = some config ∨
      k = w.keyOf (w.rootOf root) validated ∧ (w.compute root validated).result = .ok config := by
  rw [load] at h
  dsimp only at h
  split at h
  · exact .inl h
  · split at h
    · next hc =>
      rw [find?_insert] at h
      split at h
      · next hk => exact .inr ⟨hk, by rw [hc, Option.some.inj h]⟩
      · exact .inl h
    · exact .inl h

/-- What is in the cache after an action was there before, or it was computed just then. -/
theorem find?_cache_act (h : (w.act a).cache.find? k = some config) :
    w.cache.find? k = some config ∨ ∃ root validated, k = w.keyOf (w.placeOf root) validated ∧
      (w.compute (root.map .ofString) validated).result = .ok config := by
  cases a with
  | write root name content =>
    rw [act, cache_writeLayer] at h
    exact .inl h
  | remove root name =>
    rw [act, cache_removeLayer] at h
    exact .inl h
  | setVariable name text => cases text <;> exact .inl h
  | clear => cases h
  | load root validated =>
    exact (find?_cache_load h).imp_right fun hnew => ⟨root, validated, hnew⟩
  | get root name =>
    rw [act, get_fst] at h
    exact (find?_cache_load h).imp_right fun hnew => ⟨root, true, hnew⟩
  | isCached root validated => exact .inl h

/-- What is in the cache was computed at an earlier point of the run. -/
theorem exists_origin (hcold : w.cache = .empty)
    (h : (w.after as).cache.find? k = some config) :
    ∃ bs, bs <+: as ∧ ∃ root validated, k = (w.after bs).keyOf ((w.after bs).placeOf root) validated ∧
      ((w.after bs).compute (root.map .ofString) validated).result = .ok config := by
  induction as using List.reverseRecOn with
  | nil =>
    rw [after, List.foldl_nil, hcold] at h
    cases h
  | append_singleton as a ih =>
    rw [after, List.foldl_append, List.foldl_cons, List.foldl_nil] at h
    rcases find?_cache_act h with h | h
    · obtain ⟨bs, hbs, h⟩ := ih h
      exact ⟨bs, hbs.trans (List.prefix_append _ _), h⟩
    · exact ⟨as, List.prefix_append _ _, h⟩

end Workspace

end Stencil
