import Stencil.Config.Cache

/-!
# Workspaces

A workspace is all that the library looks at and changes outside of itself: files, environment, the
directory that is worked in, and the cache of configurations. A computation in a workspace keeps what
it changed and what it logged even if it fails.

* `Work`: a computation in a workspace;
* `Work.bind_of_ok`, `Work.bind_of_error`: two computations in a row;
* `Workspace.load`: the configuration of a project, from the cache if it is there;
* `load_of_find?`, `load_cache_of_error`: a hit changes nothing, and a failure is never kept.
-/

namespace Stencil

/-- A workspace. -/
structure Workspace where
  files : Files
  env : Variable.Environment
  /-- The directory that is worked in. -/
  cwd : Place
  /-- The directory of the bundled layer, as it is called in logs. -/
  bundled : String
  /-- What makes a short mark of a text. -/
  digest : String → String
  cache : Config.Cache
  deriving Inhabited

/-- A computation in a workspace. -/
def Work (α : Type) : Type := Workspace → Workspace × Logged α

namespace Work

instance : Monad Work where
  pure a w := (w, pure a)
  bind x f w :=
    match (x w).2.result with
    -- What the second one logs comes after what the first one did.
    | .ok a => ((f a (x w).1).1, ⟨(x w).2.log ++ (f a (x w).1).2.log, (f a (x w).1).2.result⟩)
    | .error e => ((x w).1, ⟨(x w).2.log, .error e⟩)

/-- A computation that leaves the workspace as it is. -/
def ofLogged {α : Type} (x : Logged α) : Work α := fun w => (w, x)

/-- A computation without log that leaves the workspace as it is. -/
def ofExcept {α : Type} (x : Except Fault α) : Work α := ofLogged (.ofExcept x)

/-- The workspace as it is. -/
def current : Work Workspace := fun w => (w, pure w)

/-- The workspace with other files. -/
def setFiles (files : Files) : Work Unit := fun w => ({ w with files }, pure ())

variable {α β : Type} {x : Work α} {f : α → Work β} {w : Workspace}

/-- The second computation starts from what the first one leaves. -/
theorem bind_of_ok {a : α} (h : (x w).2.result = .ok a) : ((x >>= f) w).1 = (f a (x w).1).1 ∧
    ((x >>= f) w).2.result = (f a (x w).1).2.result := by
  simp [bind, h]

/-- A failure of the first computation is all there is. -/
theorem bind_of_error {e : Fault} (h : (x w).2.result = .error e) :
    ((x >>= f) w).1 = (x w).1 ∧ ((x >>= f) w).2.result = .error e := by
  simp [bind, h]

end Work

namespace Workspace

/-- The place of the project that a path leads to; without a path, of the one that is worked in. -/
def rootOf (w : Workspace) (root : Option FilePath) : Place :=
  match root with
  | some p => p.place w.cwd
  | none => w.cwd

/-- The place of the project that is asked for by a text; an empty one asks for nothing. -/
def projectRoot (w : Workspace) (root : Option String) : Place :=
  match root with
  | none => w.cwd
  | some "" => w.cwd
  | some p => (FilePath.ofString p).place w.cwd

/-- The workspace with another text of a variable, or without the variable. -/
def setVariable (w : Workspace) (name : String) (text : Option String) : Workspace :=
  let others := w.env.filter fun v => v.1 ≠ name
  match text with
  | some text => { w with env := (name, text) :: others }
  | none => { w with env := others }

/-- The key of the configuration of a project. -/
def keyOf (w : Workspace) (root : Place) (validated : Bool) : String :=
  Config.Cache.key w.digest root validated (Config.observe w.files w.env root)

/-- Whether the configuration of a project is in the cache. -/
def isCached (w : Workspace) (root : Option FilePath) (validated : Bool) : Bool :=
  (w.cache.find? (w.keyOf (w.rootOf root) validated)).isSome

/-- The configuration of a project, computed from its layers. -/
def compute (w : Workspace) (root : Option FilePath) (validated : Bool) : Logged Mapping :=
  Config.compute w.files w.env w.bundled (w.rootOf root) validated

/-- The configuration of a project. One that was computed is kept for the next time. -/
def load (root : Option FilePath) (validated : Bool) : Work Mapping := fun w =>
  let key := w.keyOf (w.rootOf root) validated
  match w.cache.find? key with
  | some config => (w, pure config)
  | none =>
    let x := w.compute root validated
    match x.result with
    | .ok config => ({ w with cache := w.cache.insert key config }, x)
    | .error _ => (w, x)

/-- What stands under a dotted name in the configuration of a project. -/
def get (root : Option FilePath) (name : String) : Work (Option Value) := do
  let config ← load root true
  return (Value.map config).at? (Path.ofDotted name)

/-- A configuration that is in the cache is loaded without any change or log. -/
theorem load_of_find? {w : Workspace} {root : Option FilePath} {validated : Bool} {m : Mapping}
    (h : w.cache.find? (w.keyOf (w.rootOf root) validated) = some m) :
    load root validated w = (w, pure m) := by
  simp [load, h]

/-- A failure to load is not kept. -/
theorem load_cache_of_error {w : Workspace} {root : Option FilePath} {validated : Bool} {e : Fault}
    (h : (load root validated w).2.result = .error e) : (load root validated w).1 = w := by
  revert h
  unfold load
  simp only
  split
  · simp
  · split
    · next hx => simp [hx]
    · simp

end Workspace

end Stencil
