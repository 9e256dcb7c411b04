import Stencil.Json.Writer

/-!
# Output

What a command writes. A result goes to the standard output and a failure to the standard error
stream. In the mode for programs each of them is a JSON object; in the mode for readers it is a line.

* `Output.Mode.success`, `Output.Mode.failure`: a result and a failure in a mode.
-/

namespace Stencil

/-- What was written to the standard output and to the standard error stream. -/
structure Output where
  out : String
  err : String
  deriving DecidableEq, Inhabited

namespace Output

/-- Nothing. -/
def empty : Output := ⟨"", ""⟩

instance : Append Output := ⟨fun a b => ⟨a.out ++ b.out, a.err ++ b.err⟩⟩

/-- A text on the standard output, as it is. -/
def raw (s : String) : Output := ⟨s, ""⟩

/-- A line on the standard output. -/
def line (s : String) : Output := raw (s ++ "\n")

/-- A line on the standard error stream. -/
def errorLine (s : String) : Output := ⟨"", s ++ "\n"⟩

/-- The form in which results and failures are written. -/
structure Mode where
  /-- Whether they are written as JSON objects, and not as lines for a reader. -/
  json : Bool
  /-- The indentation that is asked for in JSON texts. -/
  indent : Value := .int 2
  deriving DecidableEq, Inhabited

/-- What is known about a failure: a message, and the facts that come with a reported one. -/
structure Failure where
  message : String
  context : Option Mapping
  deriving DecidableEq, Inhabited

/-- A reported failure. -/
def Failure.ofReport (r : Report) : Failure := ⟨r.message, some r.context⟩

/-- The object that tells a result: its status, and the data, which have to be a mapping. -/
def resultObject (data : Value) (status : String) : Except Breach Value :=
  match data with
  | .map m => .ok (.map (Mapping.putAll [(.str "status", .str status)] m))
  | _ => .error .noMapping

/-- The object that tells a failure: a code, a message, and the facts, if any. -/
def failureObject (code message : String) (context : Option Mapping) : Value :=
  .map ([(.str "error", .str code), (.str "message", .str message)] ++
    match context with
    | some m => [(.str "context", .map m)]
    | none => [])

namespace Mode

/-- The JSON text of a value, in the layout that is asked for. -/
def jsonText (m : Mode) (v : Value) : Except Breach String :=
  (Json.Layout.ofIndent m.indent).bind fun layout => Json.text layout v

/-- A value as a JSON text on the standard output, whatever the mode is. -/
def document (m : Mode) (v : Value) : Except Breach Output := (m.jsonText v).map line

/-- A result: its message for readers, or its data and its status for programs. -/
def success (m : Mode) (data : Value) (message status : String) : Except Breach Output :=
  if m.json then (resultObject data status).bind m.document else .ok (line message)

/-- A failure under a code. An empty message stands for the one of the failure itself. -/
def failure (m : Mode) (f : Failure) (message code : String) : Except Breach Output :=
  let message := if message = "" then f.message else message
  if m.json then (m.jsonText (failureObject code message f.context)).map errorLine
  else .ok (errorLine ("Error: " ++ message))

end Mode

end Output

end Stencil
