import Stencil.Value.Mapping

/-!
# Reports

What a failure tells the caller: its category, a message, and a mapping of facts about the place
where it happened. Categories form a tree: a caller that handles a category handles all below it.

* `Category.ancestors`: the categories that a category belongs to, the most general one first;
* `Report.payload`: a report as a value;
* `Report.withFact`: a report with a fact added or replaced.
-/

namespace Stencil

/-- The categories of failures. -/
inductive Category
  /-- Every failure. -/
  | general
  /-- A marker or a configuration is not usable. -/
  | config
  /-- A template cannot be filled in. -/
  | parse
  /-- An input is missing or of the wrong kind. -/
  | invalidInput
  /-- A start marker stands inside an open placeholder. -/
  | nestedStart
  /-- A placeholder is never closed. -/
  | unterminated
  /-- An optional placeholder has no default. -/
  | missingDefault
  /-- A mandatory placeholder has no value. -/
  | unbound
  deriving DecidableEq, Inhabited

namespace Category

/-- All categories, each one behind those that it belongs to. -/
def all : List Category :=
  [.general, .config, .parse, .invalidInput, .nestedStart, .unterminated, .missingDefault, .unbound]

/-- The name of a category in reports. -/
def label : Category → String
  | .general => "TextParserError"
  | .config => "ConfigError"
  | .parse => "ParseError"
  | .invalidInput => "InvalidInputError"
  | .nestedStart => "TemplateSyntaxError"
  | .unterminated => "UnterminatedPlaceholderError"
  | .missingDefault => "MissingDefaultValueError"
  | .unbound => "UnboundVariableError"

/-- The category with a given name. -/
def ofLabel? (s : String) : Option Category := all.find? (·.label == s)

/-- The categories that a category belongs to, the most general one first. -/
def ancestors : Category → List Category
  | .general => [.general]
  | .config => [.general, .config]
  | .parse => [.general, .parse]
  | c => [.general, .parse, c]

/-- Whether failures of the category come from a bad value that the caller passed. -/
def blamesValue : Category → Bool
  | .config => true
  | .invalidInput => true
  | _ => false

end Category

/-- What a failure tells the caller. -/
structure Report where
  category : Category
  message : String
  context : Mapping
  deriving DecidableEq, Inhabited

namespace Report

/-- A report as a value. -/
def payload (r : Report) : Mapping :=
  [(.str "message", .str r.message), (.str "code", .str r.category.label),
    (.str "context", .map r.context)]

/-- A report with a fact added, or replaced if it is there already. -/
def withFact (r : Report) (fact : String) (v : Value) : Report :=
  { r with context := r.context.putStr fact v }

/-- The report that a mandatory placeholder has no value. An empty message stands for the usual
    one. -/
def unbound (name : String) (message : String) (context : Mapping) : Report where
  category := .unbound
  message := if message = "" then "Variable '" ++ name ++ "' has no bound value." else message
  context := context.putStr "name" (.str name)

end Report

end Stencil
