import Stencil.CommandLine.Arguments
import Stencil.CommandLine.Bindings
import Stencil.CommandLine.Ending
import Stencil.Config.Settings
import Stencil.Scan

/-!
# Filling in a template

The command that reads a template and fills it in. Markers and mode come from the arguments or else from
the configuration, which is not even loaded if the arguments say it all. The result is written to the
standard output or to a file, and only if everything else went well. A result with surrogates cannot be
written; a file that it was to be written to is empty afterwards.

* `RenderArguments.rendered`: the template filled in;
* `RenderArguments.run`: the command.
-/

namespace Stencil.CommandLine.RenderArguments

variable (a : RenderArguments)

/-- The mode of the output. -/
def mode : Output.Mode := { json := a.json }

/-- The path of the project whose configuration counts. -/
def project : Work FilePath := do return .ofPlace ((← Work.current).projectRoot a.root)

/-- The configuration that counts. -/
def config : Work Mapping := do Workspace.load (some (← a.project)) true

/-- A marker: the one of the arguments, or else the one of a configuration. -/
def marker (given : Option String) (config : Mapping) (field : String) : Except Fault Value :=
  match given with
  | some s => .ok (.str s)
  | none => Settings.marker config field

/-- The markers. -/
def markers : Work Markers := do
  match a.start, a.stop with
  | some s, some t => Work.ofExcept ((Markers.ofStrings s t).mapError Fault.error)
  | start, stop =>
    let config ← a.config
    let s ← Work.ofExcept (marker start config "start")
    let t ← Work.ofExcept (marker stop config "end")
    Work.ofExcept ((Markers.ofValues s t).mapError Fault.error)

/-- Whether nested start markers are refused. -/
def isStrict : Work Bool := do
  match a.strict with
  | some b => return b
  | none => Work.ofExcept (Settings.isStrict (← a.config))

/-- The text of the template, where a dash stands for the standard input. -/
def templateText (stdin : ByteArray) : Work String := do
  if a.template = "-" then Work.ofExcept ((Text.ofBytes stdin).mapError Fault.breach)
  else
    let w ← Work.current
    Work.ofExcept (w.files.readText w.cwd (.ofString a.template))

/-- The template filled in. -/
def rendered (stdin : ByteArray) : Work CodeText := do
  let markers ← a.markers
  let strict ← a.isStrict
  let w ← Work.current
  let bindings ← Work.ofExcept (Bindings.collect w.files w.cwd a.bindings a.assignments)
  let text ← a.templateText stdin
  Work.ofLogged (Checked.runText ⟨text, markers, bindings, strict⟩)

/-- The path of the file that is written, if there is one. -/
def outputPath : Option String := a.output.filter (· ≠ "")

/-- The text that is written to the standard output. In JSON surrogates are escaped. -/
def toStandardOutput (text : CodeText) : Except Breach Ending :=
  if a.json then
    (a.mode.success (.map [(.str "output", .ofText text)]) text.shown "success").map .done
  else text.encodable.map fun s => .done (.raw s)

/-- The message about a file that was written. -/
def toFile (path text : String) : Except Breach Ending :=
  (a.mode.success (.map [(.str "output_path", .str path), (.str "chars", .int text.length)])
    ("Rendered template written to " ++ path) "success").map .done

/-- What is in a file after a text was written to it. The file is opened before the text is encoded, so
    a text that cannot be encoded leaves it empty. -/
def fileText : CodeText → String
  | .whole s => s
  | .ragged _ => ""

/-- The text written to where it belongs. -/
def deliver (text : CodeText) : Work Ending := do
  match a.outputPath with
  | none => Work.ofExcept ((a.toStandardOutput text).mapError Fault.breach)
  | some path =>
    let w ← Work.current
    let files ← Work.ofExcept (w.files.writeText w.cwd (.ofString path) (fileText text))
    Work.setFiles files
    Work.ofExcept ((text.encodable.bind (a.toFile path)).mapError Fault.breach)

/-- The report of a failure. -/
def report : Fault → Except Fault Ending
  | .error e =>
    (Ending.ofFailure a.mode (.ofReport e.report) e.category.label).mapError Fault.breach
  | .file e => (Ending.ofFileError a.mode e).mapError Fault.breach
  | .breach b => .error b

/-- The command that fills in a template. -/
def run (stdin : ByteArray) : Work Ending :=
  Ending.recover a.report do a.deliver (← a.rendered stdin)

end Stencil.CommandLine.RenderArguments
