import Stencil.Background
import Stencil.Value.Entries

/-!
# Sessions

A session holds a text, markers, a mode and a table of bindings, all of which can be changed between
scans. The table is its own: neither the mapping it was made from nor the copies that it hands out
share anything with it, and a scan in the background sees it as it was when the scan was scheduled.

* `Session.start`: a session, with its table made from any value that can be read as a mapping;
* `Session.step`: one operation on a session, and its answer.
-/

namespace Stencil

/-- A session. -/
structure Session where
  text : Value
  markers : MarkersInput
  strict : Value
  /-- The bindings. -/
  table : Mapping
  /-- The value that the table was made from, which stays with the caller. -/
  source : Value
  /-- The scans whose workers have not run yet, oldest first. -/
  pending : List Task
  deriving Inhabited

namespace Session

/-- An operation on a session. -/
inductive Action
  /-- Bind a name. -/
  | put (name value : Value)
  /-- Scan at once. -/
  | parse
  /-- Schedule a scan. -/
  | schedule (onDone onError : Callback)
  /-- Let the worker of the scan at a place among the pending ones run. -/
  | work (place : Nat)
  /-- Ask for a copy of the bindings. -/
  | bindings
  /-- Change a copy of the bindings. -/
  | editCopy (name value : Value)
  /-- Change the value that the table was made from. -/
  | editSource (name value : Value)
  /-- Ask for the value that the table was made from. -/
  | source
  | setText (text : Value)
  | setStrict (strict : Value)
  | setMarkers (markers : MarkersInput)

/-- The answer to an operation. -/
inductive Answer
  | none
  /-- The session itself, for the next operation. -/
  | itself
  | scanned (outcome : Except Fault String)
  | scheduled
  | delivered (d : Delivery)
  | mapping (m : Mapping)
  | value (v : Value)
  | refused (f : Fault)

/-- A session at its start. -/
def start (text : Value) (markers : MarkersInput) (bindings strict : Value) :
    Except Breach Session := do
  let table ← bindings.toMappingOrEmpty
  return ⟨text, markers, strict, table, bindings, []⟩

/-- The scan that a session would make now. -/
def request (s : Session) : Request := ⟨s.text, s.markers, .map s.table, s.strict⟩

/-- A mapping with a value put under a name. -/
def edited (m : Mapping) (name value : Value) : Except Breach Mapping :=
  match name.toKey? with
  | some k => .ok (m.put k value)
  | Option.none => .error .unusableKey

/-- One operation on a session. -/
def step (s : Session) : Action → Session × Answer
  | .put name value =>
    match edited s.table name value with
    | .ok table => ({ s with table }, .itself)
    | .error b => (s, .refused b)
  | .parse => (s, .scanned s.request.run.result)
  | .schedule onDone onError =>
    match Task.schedule s.request onDone onError with
    | .ok t => ({ s with pending := s.pending ++ [t] }, .scheduled)
    | .error e => (s, .refused e)
  | .work place =>
    match s.pending[place]? with
    | some t => ({ s with pending := s.pending.eraseIdx place }, .delivered t.run)
    | Option.none => (s, .none)
  | .bindings => (s, .mapping s.table)
  | .editCopy name value =>
    match edited s.table name value with
    | .ok _ => (s, .mapping s.table)
    | .error b => (s, .refused b)
  | .editSource name value =>
    match s.source with
    | .map es =>
      match edited es name value with
      | .ok es => ({ s with source := .map es }, .mapping s.table)
      | .error b => (s, .refused b)
    | _ => (s, .refused Breach.noMapping)
  | .source => (s, .value s.source)
  | .setText text => ({ s with text }, .none)
  | .setStrict strict => ({ s with strict }, .none)
  | .setMarkers markers => ({ s with markers }, .none)

end Session

end Stencil
