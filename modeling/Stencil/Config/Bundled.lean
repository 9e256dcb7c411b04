import Stencil.Schema

/-!
# The bundled configuration

The layer that lies below all others, and the schema that a configuration has to obey: markers that
are not empty, whether nested start markers are refused, and how much is logged. Sections that the
schema does not name are free.
-/

namespace Stencil.Config

/-- The bundled layer. -/
def defaults : Mapping :=
  [(.str "delimiters", .map [(.str "start", .str "*("), (.str "end", .str ")*")]),
    (.str "scan", .map [(.str "strict_syntax_check", .bool false)]),
    (.str "logging", .map [(.str "level", .str "WARNING")])]

/-- The spellings of the levels of logging. -/
def levelNames : List String :=
  ["DEBUG", "INFO", "WARNING", "ERROR", "CRITICAL", "debug", "info", "warning", "error", "critical"]

/-- The schema of a marker. -/
def markerSchema : Schema := [.kind .string, .minLength 1]

/-- The schema of the section on markers. -/
def delimitersSchema : Schema :=
  [.kind .object, .closed, .parts [("start", markerSchema), ("end", markerSchema)],
    .required ["start", "end"]]

/-- The schema of the section on scans. -/
def scanSchema : Schema :=
  [.kind .object, .closed, .parts [("strict_syntax_check", [.kind .boolean])]]

/-- The schema of the section on logging. -/
def loggingSchema : Schema :=
  [.kind .object, .closed, .parts [("level", [.kind .string, .choice levelNames])]]

/-- The schema of a configuration. -/
def schema : Schema :=
  [.remark "$schema" "https://json-schema.org/draft/2020-12/schema",
    .remark "title" "textparser configuration", .kind .object,
    .parts [("delimiters", delimitersSchema), ("scan", scanSchema), ("logging", loggingSchema)],
    .required ["delimiters", "scan", "logging"]]

/-- A configuration has to obey the schema. -/
def validate (config : Value) : Except Fault Unit :=
  match schema.ordered config with
  | .error b => .error b
  | .ok [] => .ok ()
  | .ok vs => .error (Error.invalidConfiguration (vs.map Violation.detail))

end Stencil.Config
