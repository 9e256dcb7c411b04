import Stencil.Scan

/-!
# Scans in the background

A scan may be handed to a worker that tells its outcome to one of two callbacks. What the worker
uses is fixed when the scan is scheduled. The result, or the reported failure, goes to the callback
and to the future of the scan, unless the callback itself fails: then the future holds that failure.

* `Task.schedule`: a scan is scheduled only with two callbacks that can be called;
* `Task.run`: what the worker delivers.
-/

namespace Stencil

/-- What is passed as a callback. -/
inductive Callback
  /-- Nothing. -/
  | missing
  /-- Something that cannot be called. -/
  | idle
  /-- A callback that returns. -/
  | returns
  /-- A callback that fails, in whatever way. -/
  | fails (f : Fault)
  deriving DecidableEq, Inhabited

/-- A scheduled scan. -/
structure Task where
  request : Request
  onDone : Callback
  onError : Callback
  deriving Inhabited

/-- What a worker delivers: the results told to the first callback, the failures told to the
    second one, and the future. -/
structure Delivery where
  done : List String
  errors : List Error
  future : Except Fault String

namespace Callback

/-- A callback that fails in a way of its own. -/
abbrev raises : Callback := .fails Breach.callback

/-- The callback that a value is. No value can be called. -/
def ofValue : Value → Callback
  | .null => .missing
  | _ => .idle

/-- Whether a callback can be called. -/
def isCallable : Callback → Bool
  | .returns => true
  | .fails _ => true
  | _ => false

/-- What becomes of an outcome after it was told to a callback. -/
def answer (c : Callback) (outcome : Except Fault String) : Except Fault String :=
  match c with
  | .fails f => .error f
  | _ => outcome

end Callback

namespace Task

/-- A scan, scheduled with two callbacks. -/
def schedule (r : Request) (onDone onError : Callback) : Except Error Task :=
  if onDone = .missing ∨ onError = .missing then .error .missingCallback
  else if !onDone.isCallable || !onError.isCallable then .error .idleCallback
  else .ok ⟨r, onDone, onError⟩

/-- What the worker delivers. -/
def run (t : Task) : Delivery :=
  match t.request.run.result with
  | .ok s => ⟨[s], [], t.onDone.answer (.ok s)⟩
  | .error (.error e) =>
    -- A failure of the scan or of its inputs is told, and nothing else is.
    if .parse ∈ e.category.ancestors then ⟨[], [e], t.onError.answer (.error e)⟩
    else ⟨[], [], .error e⟩
  | .error f => ⟨[], [], .error f⟩

end Task

end Stencil
