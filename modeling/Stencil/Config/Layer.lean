import Stencil.Config.Bundled
import Stencil.Config.Variable
import Stencil.Files.Content
import Stencil.Log
import Stencil.Value.Merge
import Stencil.Yaml.Tree

/-!
# Layers of configuration

A configuration is built from layers, each laid over the ones before it: the bundled layer, then the
files of the project in the order of their names, then the variables of the environment in the order
of theirs.

* `Config.layerNames`: the names of the files of a project that are layers;
* `Config.layerOfText`: the mapping in a file;
* `Config.override`: a configuration with the variables of an environment laid over it;
* `Config.compute`: the configuration of a project.
-/

namespace Stencil.Config

/-- Where the configuration of a project stands in it. -/
def projectDirectory : Place := [".textparser", "config"]

/-- The name of the file of the bundled layer. -/
def bundledName : String := "defaults.yaml"

/-- Whether a file of a project is a layer of its configuration. -/
def isLayerName (name : String) : Bool :=
  FilePath.endsIn name ".yaml" || FilePath.endsIn name ".yml"

/-- The path of a bundled file; without a name, that of its directory. -/
def dataPath (base : FilePath) (directory name : String) : FilePath :=
  let path := base.join (.ofString directory)
  if name = "" then path else path.join (.ofString name)

/-- The names in the directory of a project's configuration that are layers, in order. -/
def layerNames (files : Files) (root : Place) : List String :=
  let directory := root ++ projectDirectory
  if files.isDirectory directory then
    sort (fun a b => a ≤ b) ((files.names directory).filter isLayerName)
  else []

/-- The path of a layer of a project. -/
def layerPath (root : Place) (name : String) : FilePath :=
  .ofPlace (root ++ projectDirectory ++ [name])

/-- The mapping that a document is; an empty document is the empty mapping. -/
def layerOfText (path text : String) : Except Fault Mapping :=
  match Yaml.read text with
  | .ok .null => .ok []
  | .ok (.map m) => .ok m
  | .ok _ => .error (Error.layerNotMapping path)
  | .error (.flaw f) => .error (Error.brokenLayer path f.message)
  | .error (.breach b) => .error b

/-- The mapping in the file that a path leads to. -/
def readLayer (files : Files) (cwd : Place) (p : FilePath) : Except Fault Mapping :=
  (files.readText cwd p).bind (layerOfText p.text)

/-- A configuration with one more layer from a file. -/
def addLayer (files : Files) (root : Place) (config : Mapping) (name : String) : Logged Mapping := do
  let path := layerPath root name
  Logged.write .configuration ("Loading config layer " ++ path.text)
  let layer ← Logged.ofExcept (readLayer files root path)
  return config.merge layer

/-- A configuration with one more variable laid over it, unless the variable overrides nothing. -/
def addVariable (config : Mapping) (v : String × String) : Logged Mapping := do
  let rest := Variable.rest v.1
  if !Variable.isOverride rest then return config
  match Variable.path rest with
  | .error e => Logged.fail e
  | .ok path =>
    let value ← Logged.ofExcept ((Coercion.read v.2).mapError Fault.breach)
    Logged.write .configuration ("Applying env override " ++ ".".intercalate path)
    Logged.ofExcept ((config.setPath path value).mapError Fault.breach)

/-- A configuration with the variables of an environment laid over it. -/
def override (env : Variable.Environment) (config : Mapping) : Logged Mapping :=
  (Variable.relevant env).foldlM addVariable config

/-- A value of any kind with the variables of an environment laid over it. Only a mapping can be
    changed that way, and the first variable that overrides something shows it. -/
def overrideIn (env : Variable.Environment) : Value → Logged Value
  | .map config => Value.map <$> override env config
  | v =>
    match (Variable.relevant env).find? fun x => Variable.isOverride (Variable.rest x.1) with
    | none => return v
    | some x => do
      -- A fault in the variable itself comes first.
      let _ ← addVariable [] x
      Logged.fail Breach.noEntries

/-- The configuration of a project, where `bundled` is the directory of the bundled layer. -/
def compute (files : Files) (env : Variable.Environment) (bundled : String) (root : Place)
    (validated : Bool) : Logged Mapping := do
  Logged.write .configuration ("Loading config layer " ++ bundled ++ "/" ++ bundledName)
  let config ← (layerNames files root).foldlM (addLayer files root) (Mapping.merge [] defaults)
  let config ← override env config
  if validated then Logged.ofExcept (validate (.map config))
  return config

end Stencil.Config
