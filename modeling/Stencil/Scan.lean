import Stencil.Log
import Stencil.Scan.Layout
import Stencil.Value.Mapping

/-!
# Scans

A scan fills a text in: every placeholder is replaced by the value that its identifier is bound to,
or by its default. Bound values are not scanned again. The placeholders are filled in from left to
right, and the scan fails at the first one that cannot be.

* `Identifier.resolve`: what a placeholder is replaced by;
* `Layout.fill`: a layout with all placeholders replaced, and how many there were;
* `scan`, `scanText`: a text filled in, as it can be shown and as it is;
* `Request.run`: the same for inputs of any kind, which are checked first, with a log.
-/

namespace Stencil

/-- What a placeholder is replaced by. A bound value wins over a default, a null is no value. -/
def Identifier.resolve (bindings : Mapping) (i : Identifier) : Except Fault String :=
  match bindings.getStr? i.name with
  | none | some .null =>
    match i with
    | .optional _ d => .ok d
    | .mandatory n => .error (Error.unbound n)
  | some v => (textOf v.text?).mapError Fault.breach

/-- What a placeholder is replaced by, where the bindings are a value of any kind. -/
def Identifier.resolveIn (bindings : Value) (i : Identifier) : Except Fault String :=
  match bindings with
  | .map m => i.resolve m
  | _ => .error Breach.noEntries

/-- What a placeholder with a given body is replaced by. -/
def resolveBody (bindings : Mapping) (body : List Char) : Except Fault (List Char) :=
  match Identifier.parse body with
  | .error e => .error e
  | .ok i => (i.resolve bindings).map String.toList

/-- A layout with all placeholders replaced, and how many there were. -/
def Layout.fill (bindings : Mapping) : Layout → Except Fault (List Char × Nat)
  | .done => .ok ([], 0)
  | .literal c rest => (fill bindings rest).map fun p => (c :: p.1, p.2)
  | .placeholder body rest => do
    let value ← resolveBody bindings body
    let (out, n) ← fill bindings rest
    return (value ++ out, n + 1)
  | .broken cause => .error cause

/-- A text filled in, and how many placeholders were replaced. -/
def scanCounting (m : Markers) (strict : Bool) (bindings : Mapping) (text : String) :
    Except Fault (String × Nat) :=
  ((Layout.ofText m strict 0 text.toList).fill bindings).map fun p => (String.ofList p.1, p.2)

/-- A text filled in. -/
def scan (m : Markers) (strict : Bool) (bindings : Mapping) (text : String) : Except Fault String :=
  (scanCounting m strict bindings text).map (·.1)

/-! ## Surrogates

A scan gives its text as it can be shown. What the text really is differs from it where bound values
have surrogates. -/

/-- What a placeholder is replaced by, with its surrogates. -/
def Identifier.resolveText (bindings : Mapping) (i : Identifier) : Except Fault CodeText :=
  match bindings.getStr? i.name with
  | some (.ragged t) => .ok (.ragged t)
  | _ => (i.resolve bindings).map .whole

/-- What a placeholder with a given body is replaced by, with its surrogates. -/
def resolveCodes (bindings : Mapping) (body : List Char) : Except Fault (List CodePoint) :=
  match Identifier.parse body with
  | .error e => .error e
  | .ok i => (i.resolveText bindings).map CodeText.codes

/-- The code points of a layout with all placeholders replaced. -/
def Layout.codes (bindings : Mapping) : Layout → Except Fault (List CodePoint)
  | .done => .ok []
  | .literal c rest => (codes bindings rest).map (.char c :: ·)
  | .placeholder body rest => do
    let value ← resolveCodes bindings body
    return value ++ (← codes bindings rest)
  | .broken cause => .error cause

/-- A text filled in, with its surrogates. -/
def scanText (m : Markers) (strict : Bool) (bindings : Mapping) (text : String) :
    Except Fault CodeText :=
  ((Layout.ofText m strict 0 text.toList).codes bindings).map CodeText.ofCodes

/-! ## Requests -/

/-- What is passed as the markers of a scan. -/
inductive MarkersInput
  | markers (m : Markers)
  | value (v : Value)
  deriving Inhabited

/-- The inputs of a scan, of whatever kind they are. -/
structure Request where
  text : Value
  markers : MarkersInput
  bindings : Value
  strict : Value
  deriving Inhabited

/-- The inputs of a scan after the check. -/
structure Checked where
  text : String
  markers : Markers
  bindings : Mapping
  strict : Bool

namespace MarkersInput

/-- Whether nothing was passed. -/
def isMissing : MarkersInput → Bool
  | .value .null => true
  | _ => false

/-- The markers, if they are some. -/
def toMarkers : MarkersInput → Except Error Markers
  | .markers m => .ok m
  | .value v => .error (.wrongKind "delimiters" "DelimiterSpec" v.kindWord)

end MarkersInput

namespace Request

/-- The names of the inputs that are absent. -/
def missing (r : Request) : List String :=
  [("text", r.text == .null), ("delimiters", r.markers.isMissing),
    ("bindings", r.bindings == .null)].filterMap fun p => if p.2 then some p.1 else none

/-- The inputs of a scan, if all are there and of the right kind. A ragged text is taken as it is
    shown. -/
def check (r : Request) : Except Error Checked := do
  if r.missing ≠ [] then .error (.missingInputs r.missing)
  let text ← match r.text.shown? with
    | some s => .ok s
    | none => .error (.wrongKind "text" "str" r.text.kindWord)
  let markers ← r.markers.toMarkers
  let bindings ← match r.bindings with
    | .map es => .ok es
    | v => .error (.wrongKind "bindings" "Mapping" v.kindWord)
  return ⟨text, markers, bindings, r.strict.truth⟩

end Request

/-- The first line of the log of a scan. -/
def Checked.opening (c : Checked) : String :=
  "Scanning " ++ Numeral.intText c.text.length ++ " chars with " ++ c.markers.text ++
    " (strict=" ++ (if c.strict then "True" else "False") ++ ")"

/-- A scan of checked inputs, with its log. -/
def Checked.run (c : Checked) : Logged String := do
  Logged.write .scanner c.opening
  let (out, n) ← Logged.ofExcept (scanCounting c.markers c.strict c.bindings c.text)
  Logged.write .scanner ("Scan finished: " ++ Numeral.intText n ++ " placeholder(s) substituted")
  return out

/-- A scan of checked inputs, with its log and with the surrogates of the text. -/
def Checked.runText (c : Checked) : Logged CodeText := do
  let _ ← c.run
  Logged.ofExcept (scanText c.markers c.strict c.bindings c.text)

/-- A scan of inputs of any kind, with its log. -/
def Request.run (r : Request) : Logged String :=
  match r.check with
  | .error e => Logged.fail e
  | .ok c => c.run

end Stencil
