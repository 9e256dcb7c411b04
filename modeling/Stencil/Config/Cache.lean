import Stencil.Config.Layer
import Stencil.Value.Display

/-!
# The cache of configurations

A configuration that was computed once is kept under a key made of the root of its project, whether it
was validated, and a digest of what it may depend on: the variables that count, and the names, times
and sizes of the files in the directory of the project's configuration.

* `Cache.key`: the key of a configuration;
* `Cache.find?`, `Cache.insert`: the configurations by their keys.
-/

namespace Stencil.Config

/-- What a configuration may depend on. -/
structure Observed where
  overrides : Variable.Environment
  /-- Names, times and sizes. -/
  files : List (String × Nat × Nat)
  deriving DecidableEq, Inhabited

/-- Whether a file is observed. A name that is nothing but an ending has none. -/
def isObservedName (name : String) : Bool :=
  FilePath.ending name = ".yaml" ∨ FilePath.ending name = ".yml"

/-- The time and the size of what stands at a place. -/
def facts (files : Files) (p : Place) : Nat × Nat :=
  match files.find? p with
  | some (.file content stamp) => (stamp, content.size)
  | _ => (0, 0)

/-- What the configuration of a project may depend on. -/
def observe (files : Files) (env : Variable.Environment) (root : Place) : Observed :=
  let directory := root ++ projectDirectory
  let names :=
    if files.isDirectory directory then
      sort (fun a b => a ≤ b) ((files.names directory).filter isObservedName)
    else []
  ⟨Variable.relevant env, names.map fun name => (name, facts files (directory ++ [name]))⟩

/-- What was observed, as a value. -/
def Observed.value (o : Observed) : Value :=
  .tuple [.list (o.overrides.map fun v => .tuple [.str v.1, .str v.2]),
    .list (o.files.map fun f => .tuple [.str f.1, .int f.2.1, .int f.2.2])]

/-- Configurations by their keys. -/
structure Cache where
  entries : List (String × Mapping)
  deriving Inhabited

namespace Cache

/-- No configuration at all. -/
def empty : Cache := ⟨[]⟩

/-- The end of the part of a key that says whether a configuration was validated. -/
def validityMark (validated : Bool) : String := if validated then ":validated" else ":raw"

/-- The key of a configuration. -/
def key (digest : String → String) (root : Place) (validated : Bool) (o : Observed) : String :=
  (FilePath.ofPlace root).text ++ validityMark validated ++ ":" ++ digest (o.value.literal?.getD "")

/-- The configuration under a key. -/
def find? (c : Cache) (key : String) : Option Mapping := c.entries.lookup key

/-- A configuration kept under a key. -/
def insert (c : Cache) (key : String) (config : Mapping) : Cache :=
  ⟨(key, config) :: c.entries.filter fun e => e.1 ≠ key⟩

end Cache

end Stencil.Config
