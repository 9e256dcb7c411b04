import Stencil.CommandLine.Arguments
import Stencil.CommandLine.Ending
import Stencil.Value.Order
import Stencil.Value.Table
import Stencil.Yaml.Writer

/-!
# Showing the configuration

The command that shows the configuration of a project, or the part of it under a dotted name, as a
table for a reader, as a YAML document or as a JSON document.

* `ShowArguments.part`, `ShowArguments.whole`: what is shown;
* `ShowArguments.run`: the command.
-/

namespace Stencil.CommandLine

namespace ShowArguments

variable (a : ShowArguments)

/-- The mode of the output. -/
def mode : Output.Mode := { json := a.json }

/-- The form that counts. -/
def form : ShowFormat := if a.json then .json else a.format

/-- The table of a value, which has to be printed. -/
def printedTable (v : Value) : Except Breach String := do
  let table ← textOf (v.table? 1)
  if v.isPrintable then return table else .error .unencodable

/-- What is shown of the value under a dotted name. -/
def part (key : String) (v : Value) : Except Breach Output :=
  match a.form with
  | .json => a.mode.document (.map [(.str key, v)])
  | .yaml => (Yaml.display (Value.nested (Path.pieces key) v)).map .line
  | .table => (printedTable v).map fun t => .line (key ++ ":") ++ .line t

/-- What is shown of a section in the table. -/
def sectionTable (name : Key) (v : Value) : Except Breach Output := do
  let name ← (textOf name.codeText?).bind CodeText.encodable
  let table ← printedTable v
  return .line ("[" ++ name ++ "]") ++ .line table ++ .line ""

/-- The head of the table. -/
def tableHead : Output :=
  .line (programName ++ " configuration") ++ .line (String.ofList (List.replicate 40 '='))

/-- The table of a configuration, its sections in order. -/
def table (config : Mapping) : Except Breach Output :=
  match Mapping.sorted? config with
  | none => .error .unorderedKeys
  | some sections => sections.foldlM (fun o s => (o ++ ·) <$> sectionTable s.1 s.2) tableHead

/-- What is shown of a whole configuration. -/
def whole (config : Mapping) : Except Breach Output :=
  match a.form with
  | .json => a.mode.document (.map config)
  | .yaml => (Yaml.display (.map config)).map .line
  | .table => table config

/-- How the command ends for a configuration. -/
def shown (config : Mapping) : Except Breach Ending :=
  match a.key.filter (· ≠ "") with
  | none => (a.whole config).map .done
  | some key =>
    match (Value.map config).at? (Path.ofDotted key) with
    | none | some .null => .ok ⟨1, .line ("Key not found: " ++ key)⟩
    | some v => (a.part key v).map .done

/-- The code under which a failure is reported. -/
def failureCode : String := "config_show_error"

/-- The report of a failure. -/
def report : Fault → Except Fault Ending
  | .error e => (Ending.ofFailure a.mode (.ofReport e.report) failureCode).mapError Fault.breach
  | f => .error f

/-- The command that shows the configuration. -/
def run : Work Ending :=
  Ending.recover a.report do
    let root := FilePath.ofPlace ((← Work.current).projectRoot a.root)
    let config ← Workspace.load (some root) true
    Work.ofExcept ((a.shown config).mapError Fault.breach)

end ShowArguments

end Stencil.CommandLine
