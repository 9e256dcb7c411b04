import Stencil.Error.Basic
import Stencil.Sort
import Stencil.Value.Display
import Stencil.Value.Path

/-!
# Schemas

A schema is a list of rules for a value. A rule looks at the value itself, or at the values under
some names if it is a mapping. Every rule that does not hold gives a violation, or one for every name
that is missing, with the path of the value that violates it.

The violations are found rule by rule, those of a part where the rule about parts stands, and are then
put in the order of their paths.

* `Schema.violations`: the violations of a schema, as found;
* `Schema.ordered`: the violations in the order of their paths;
* `Schema.document`: a schema as a value.
-/

namespace Stencil

/-- The kinds of values that schemas tell apart. -/
inductive Kind
  | object
  | string
  | boolean
  deriving DecidableEq, Inhabited

/-- The word for a kind. -/
def Kind.word : Kind → String
  | .object => "object"
  | .string => "string"
  | .boolean => "boolean"

/-- Whether a value is of a kind. -/
def Kind.admits : Kind → Value → Bool
  | .object, .map _ => true
  | .string, .str _ => true
  | .string, .ragged _ => true
  | .boolean, .bool _ => true
  | _, _ => false

/-- A rule of a schema. -/
inductive Rule
  /-- A remark, which always holds. -/
  | remark (name text : String)
  /-- The value is of a kind. -/
  | kind (k : Kind)
  /-- A mapping has no names but those of its parts. -/
  | closed
  /-- The values under some names of a mapping obey schemas of their own. -/
  | parts (schemas : List (String × List Rule))
  /-- A mapping has some names. -/
  | required (names : List String)
  /-- A text has a least number of characters. -/
  | minLength (n : Nat)
  /-- The value is one of some texts. -/
  | choice (texts : List String)
  deriving Inhabited

/-- A schema. -/
abbrev Schema := List Rule

/-- A rule that does not hold, by the path of the value and a message. -/
structure Violation where
  path : List String
  message : String
  deriving DecidableEq, Inhabited

/-- A violation in one line. -/
def Violation.detail (v : Violation) : String :=
  (if v.path.isEmpty then "<root>" else ".".intercalate v.path) ++ ": " ++ v.message

/-- Whether a path comes before another one or is the same: the first names that differ decide. -/
def Path.notAfter : List String → List String → Bool
  | [], _ => true
  | _ :: _, [] => false
  | s :: p, t :: q => s < t || (s == t && Path.notAfter p q)

namespace Schema

/-- The literal of a value, which has to have one. -/
def literal (v : Value) : Except Breach String := textOf v.literal?

/-- The names that the parts of a schema have. -/
def partNames (s : Schema) : List String :=
  s.flatMap fun
    | .parts schemas => schemas.map (·.1)
    | _ => []

/-- The texts and literals of the keys of a mapping that no part of a schema names. -/
def extras (names : List String) (m : Mapping) : Except Breach (List (String × String)) :=
  (Mapping.keys m |>.filter fun k => names.all fun n => !(Key.str n).same k).mapM fun k => do
    return (← textOf k.text?, ← textOf k.literal?)

/-- The message that a mapping has keys that it must not have. -/
def extrasMessage (extras : List (String × String)) : String :=
  let sorted := sort (fun p q => p.1 ≤ q.1) extras
  "Additional properties are not allowed (" ++ ", ".intercalate (sorted.map (·.2)) ++
    (if extras.length = 1 then " was" else " were") ++ " unexpected)"

/-- The violation of a rule that looks at one value, or none. -/
def violationUnless (holds : Bool) (path : List String) (message : Except Breach String) :
    Except Breach (List Violation) :=
  if holds then .ok [] else message.map fun m => [⟨path, m⟩]

/-- The violations of a rule that looks at a value without going into its parts. -/
def ownViolations (names path : List String) (v : Value) : Rule → Except Breach (List Violation)
  | .kind k =>
    violationUnless (k.admits v) path do
      return (← literal v) ++ " is not of type " ++ Text.quoted k.word
  | .closed =>
    match v with
    | .map m => do
      let extras ← extras names m
      violationUnless extras.isEmpty path (.ok (extrasMessage extras))
    | _ => .ok []
  | .required required =>
    match v with
    | .map m =>
      .ok ((required.filter fun n => !Mapping.has m (.str n)).map fun n =>
        ⟨path, Text.quoted n ++ " is a required property"⟩)
    | _ => .ok []
  | .minLength n =>
    match v with
    | .str s =>
      violationUnless (n ≤ s.length) path
        (.ok (Text.quoted s ++ if n = 1 then " should be non-empty" else " is too short"))
    | .ragged t =>
      violationUnless (n ≤ t.codes.length) path do return (← literal v) ++ " is too short"
    | _ => .ok []
  | .choice texts =>
    violationUnless (texts.any fun t => v = .str t) path do
      return (← literal v) ++ " is not one of " ++ (← literal (.list (texts.map .str)))
  | _ => .ok []

/-- The violations of a list of rules, where `names` are those of the parts of the schema. -/
def ruleViolations (names path : List String) (v : Value) :
    List Rule → Except Breach (List Violation)
  | [] => .ok []
  | .parts schemas :: rules => do
    return (← partViolations path v schemas) ++ (← ruleViolations names path v rules)
  | rule :: rules => do
    return (← ownViolations names path v rule) ++ (← ruleViolations names path v rules)
where
  /-- The violations of the schemas of some parts, one part after the other. -/
  partViolations (path : List String) (v : Value) :
      List (String × List Rule) → Except Breach (List Violation)
    | [] => .ok []
    | (name, rules) :: schemas => do
      -- A name that is missing violates no schema of its part.
      let own ←
        match v.at? [name] with
        | some part => ruleViolations (partNames rules) (path ++ [name]) part rules
        | none => .ok []
      return own ++ (← partViolations path v schemas)

/-- The violations of a schema, as they are found. -/
def violations (s : Schema) (v : Value) : Except Breach (List Violation) :=
  ruleViolations s.partNames [] v s

/-- The violations of a schema in the order of their paths; those of one path stay as found. -/
def ordered (s : Schema) (v : Value) : Except Breach (List Violation) :=
  (s.violations v).map (sort fun a b => Path.notAfter a.path b.path)

/-! ## Schemas as values -/

/-- The entries that a list of rules is written as. -/
def document : List Rule → Mapping
  | [] => []
  | .remark name text :: rules => (.str name, .str text) :: document rules
  | .kind k :: rules => (.str "type", .str k.word) :: document rules
  | .closed :: rules => (.str "additionalProperties", .bool false) :: document rules
  | .parts schemas :: rules => (.str "properties", .map (partDocuments schemas)) :: document rules
  | .required names :: rules => (.str "required", .list (names.map .str)) :: document rules
  | .minLength n :: rules => (.str "minLength", .int n) :: document rules
  | .choice texts :: rules => (.str "enum", .list (texts.map .str)) :: document rules
where
  /-- The entries that the schemas of some parts are written as. -/
  partDocuments : List (String × List Rule) → Mapping
    | [] => []
    | (name, rules) :: schemas => (.str name, .map (document rules)) :: partDocuments schemas

end Schema

end Stencil
