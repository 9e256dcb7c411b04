import Stencil.Error.Report
import Stencil.Text.Quoted

/-!
# Failures

The causes of the failures that are reported to the caller, and the report of each
(`Error.report`). All wording is here.

Two more kinds of failures pass through unreported: those of the file system (`FileError`), and
breaches of what the caller has to grant (`Breach`), such as texts that are not encoded in UTF-8
or integers that are too long to be written. A `Fault` is any of the three.
-/

namespace Stencil

/-- Why the default of an optional placeholder cannot be read. -/
inductive DefaultFlaw
  /-- Nothing follows the name. -/
  | noParameters
  /-- What follows the name does not set a default. -/
  | noToken
  /-- The default has no closing quote. -/
  | noClosingQuote
  deriving DecidableEq, Inhabited

/-- The causes of failures that are reported. -/
inductive Error
  /-- A marker that is no text or an empty one. -/
  | emptyMarker (field : String) (value : Value)
  /-- Inputs of a scan that are absent. -/
  | missingInputs (fields : List String)
  /-- An input of a scan that is of the wrong kind. -/
  | wrongKind (field expected found : String)
  /-- A callback that is absent. -/
  | missingCallback
  /-- A callback that cannot be called. -/
  | idleCallback
  /-- A start marker inside an open placeholder. -/
  | nestedStart (position : Nat) (start stop : String)
  /-- A placeholder that is never closed. -/
  | unterminated (position : Nat) (stop : String)
  /-- An optional placeholder without a readable default. -/
  | missingDefault (flaw : DefaultFlaw) (body : String)
  /-- A mandatory placeholder without a value. -/
  | unbound (name : String)
  /-- An assignment on the command line without an equals sign. -/
  | badAssignment (item : String)
  /-- A file of bindings that is no YAML document. -/
  | brokenBindings (path flaw : String)
  /-- A file of bindings that holds no mapping. -/
  | bindingsNotMapping (path : String)
  /-- A binding to a list or a mapping. -/
  | bindingNotScalar (path key : String)
  /-- A layer of the configuration that is no YAML document. -/
  | brokenLayer (path flaw : String)
  /-- A layer of the configuration that is no mapping. -/
  | layerNotMapping (path : String)
  /-- A variable of the environment whose path has an empty segment. -/
  | emptySegment (rest : String)
  /-- A configuration that violates its schema. -/
  | invalidConfiguration (details : List String)
  deriving DecidableEq, Inhabited

/-- The message that a default cannot be read. -/
def DefaultFlaw.message : DefaultFlaw → String
  | .noParameters => "Missing default value for optional identifier."
  | .noToken => "Default value not found, define one using defVal=\"defValue\""
  | .noClosingQuote => "Default value is not terminated by a closing quote."

namespace Error

/-- The category of a failure. -/
def category : Error → Category
  | .emptyMarker .. => .config
  | .missingInputs .. => .invalidInput
  | .wrongKind .. => .invalidInput
  | .missingCallback => .invalidInput
  | .idleCallback => .invalidInput
  | .nestedStart .. => .nestedStart
  | .unterminated .. => .unterminated
  | .missingDefault .. => .missingDefault
  | .unbound .. => .unbound
  | .badAssignment .. => .invalidInput
  | .brokenBindings .. => .invalidInput
  | .bindingsNotMapping .. => .invalidInput
  | .bindingNotScalar .. => .invalidInput
  | .brokenLayer .. => .config
  | .layerNotMapping .. => .config
  | .emptySegment .. => .config
  | .invalidConfiguration .. => .config

/-- The message of a failure. -/
def message : Error → String
  | .emptyMarker .. => "Delimiter start or end marker cannot be null or empty."
  | .missingInputs _ => "Input text, bindings or delimiters is null."
  | .wrongKind field expected found =>
    "Input " ++ field ++ " must be a " ++ expected ++ ", got " ++ found ++ "."
  | .missingCallback => "The on_done and on_error callbacks cannot be null."
  | .idleCallback => "The on_done and on_error callbacks must be callable."
  | .nestedStart .. => "Syntax error: found nested start marker before end marker."
  | .unterminated .. => "End marker not found."
  | .missingDefault flaw _ => flaw.message
  | .unbound name => (Report.unbound name "" []).message
  | .badAssignment item => "Invalid --var '" ++ item ++ "', expected NAME=VALUE"
  | .brokenBindings path flaw => "Invalid YAML in bindings file " ++ path ++ ": " ++ flaw
  | .bindingsNotMapping path => "Bindings file " ++ path ++ " must contain a mapping"
  | .bindingNotScalar path key => "Binding '" ++ key ++ "' in " ++ path ++ " must be a scalar value"
  | .brokenLayer path flaw => "Invalid YAML in " ++ path ++ ": " ++ flaw
  | .layerNotMapping path => "Config file " ++ path ++ " must contain a mapping"
  | .emptySegment rest => "Malformed TEXTPARSER_* key: empty segment in '" ++ rest ++ "'."
  | .invalidConfiguration details =>
    "Invalid textparser configuration: " ++ "; ".intercalate details

/-- The facts that come with a failure. -/
def context : Error → Mapping
  | .emptyMarker field value => [(.str "field", .str field), (.str "value", value)]
  | .missingInputs fields => [(.str "missing", .list (fields.map .str))]
  | .wrongKind field _ found => [(.str "field", .str field), (.str "type", .str found)]
  | .missingCallback => []
  | .idleCallback => []
  | .nestedStart position start stop =>
    [(.str "position", .int position), (.str "start", .str start), (.str "end", .str stop)]
  | .unterminated position stop => [(.str "position", .int position), (.str "end", .str stop)]
  | .missingDefault _ body => [(.str "body", .str body)]
  | .unbound name => (Report.unbound name "" []).context
  | .badAssignment item => [(.str "var", .str item)]
  | .brokenBindings path _ => [(.str "path", .str path)]
  | .bindingsNotMapping path => [(.str "path", .str path)]
  | .bindingNotScalar path key => [(.str "path", .str path), (.str "name", .str key)]
  | .brokenLayer path _ => [(.str "path", .str path)]
  | .layerNotMapping path => [(.str "path", .str path)]
  | .emptySegment rest => [(.str "key", .str ("TEXTPARSER_" ++ rest))]
  | .invalidConfiguration details => [(.str "errors", .list (details.map .str))]

/-- The report of a failure. -/
def report (e : Error) : Report := ⟨e.category, e.message, e.context⟩

end Error

/-! ## Failures that are not reported -/

/-- The reasons why the file system refuses an access. -/
inductive FileReason
  | notFound
  | isDirectory
  | notDirectory
  | nameTooLong
  deriving DecidableEq, Inhabited

/-- A refused access to a file, by the path as it was given. -/
structure FileError where
  reason : FileReason
  path : String
  deriving DecidableEq, Inhabited

/-- The number and the wording of a reason. -/
def FileReason.wording : FileReason → String
  | .notFound => "[Errno 2] No such file or directory"
  | .isDirectory => "[Errno 21] Is a directory"
  | .notDirectory => "[Errno 20] Not a directory"
  | .nameTooLong => "[Errno 36] File name too long"

/-- The message of a refused access. -/
def FileError.message (e : FileError) : String :=
  e.reason.wording ++ ": " ++ Text.quoted e.path

/-- What a caller has to grant, and did not. -/
inductive Breach
  /-- Bytes that are no UTF-8. -/
  | undecodable
  /-- A text with surrogates, which has no UTF-8. -/
  | unencodable
  /-- An integer of too many digits to be read or written. -/
  | longInteger
  /-- A text that is read as a number and is none. -/
  | badNumber
  /-- A tagged scalar without any character. -/
  | emptyNumber
  /-- A tagged scalar that is no truth value. -/
  | badTruth
  /-- A tagged scalar that is no date. -/
  | badDate
  /-- A date that the calendar does not have. -/
  | noSuchDate
  /-- An escape beyond the last code point. -/
  | badCodePoint
  /-- A path with a null character. -/
  | nullInPath
  /-- A key that holds a list or a mapping. -/
  | unusableKey
  /-- A key that a JSON object cannot have. -/
  | unwritableKey
  /-- Keys of kinds that have no common order. -/
  | unorderedKeys
  /-- A value that is no mapping, where entries are asked for. -/
  | noEntries
  /-- A value that is no mapping, where an entry is to be put. -/
  | unfillable
  /-- A value that cannot be read as a mapping. -/
  | noMapping
  /-- An item that is no pair, where a mapping is built from pairs. -/
  | noPair
  /-- An indentation that is neither a number nor a text. -/
  | badIndent
  /-- A path without a segment. -/
  | emptyPath
  /-- An assignment to a part of fixed markers. -/
  | fixedMarkers
  /-- A section that does not say which one it is. -/
  | abstractSection
  /-- Something a callback raised. -/
  | callback
  /-- A value that is nested too deeply. -/
  | tooDeep
  deriving DecidableEq, Inhabited

/-- Any failure. -/
inductive Fault
  | error (e : Error)
  | file (e : FileError)
  | breach (b : Breach)
  deriving DecidableEq, Inhabited

instance : Coe Error Fault := ⟨.error⟩
instance : Coe FileError Fault := ⟨.file⟩
instance : Coe Breach Fault := ⟨.breach⟩

/-- A text that everything has unless it holds an integer of too many digits. -/
def textOf {α : Type} (t : Option α) : Except Breach α :=
  match t with
  | some s => .ok s
  | none => .error .longInteger

/-- A text that can be encoded, as it has to be to be written. -/
def CodeText.encodable : CodeText → Except Breach String
  | .whole s => .ok s
  | .ragged _ => .error .unencodable

end Stencil
