import Stencil.Error.Basic
import Stencil.Value.Display

/-!
# Markers

A placeholder stands between a start marker and an end marker. Both are texts that are not empty;
beyond that they are free, and may be equal, overlap or contain each other.

* `Markers.ofValues`: markers from any two values, or the first one that is not a marker;
* `Markers.text`: markers as they are shown.
-/

namespace Stencil

/-- A start marker and an end marker. -/
structure Markers where
  /-- What opens a placeholder. -/
  start : String
  /-- What closes a placeholder. -/
  stop : String
  start_ne : start ≠ "" := by decide
  stop_ne : stop ≠ "" := by decide
  deriving DecidableEq

namespace Markers

instance : Inhabited Markers := ⟨⟨"*(", ")*", by decide, by decide⟩⟩

/-- The text of a value that can be a marker. A ragged one is taken as it is shown. -/
def marker (field : String) (v : Value) : Except Error { s : String // s ≠ "" } :=
  match v.shown? with
  | some s => if h : s ≠ "" then .ok ⟨s, h⟩ else .error (.emptyMarker field v)
  | none => .error (.emptyMarker field v)

/-- Markers from any two values. -/
def ofValues (start stop : Value) : Except Error Markers := do
  let ⟨s, hs⟩ ← marker "start" start
  let ⟨t, ht⟩ ← marker "end" stop
  return ⟨s, t, hs, ht⟩

/-- Markers from two texts. -/
def ofStrings (start stop : String) : Except Error Markers := ofValues (.str start) (.str stop)

/-- Markers as they are shown. -/
def text (m : Markers) : String :=
  "DelimiterSpec(start=" ++ Text.quoted m.start ++ ", end=" ++ Text.quoted m.stop ++ ")"

/-- Markers are fixed: an assignment to a part of them is refused, whatever the part. -/
def assign (_ : Markers) (_part : String) : Except Breach Markers := .error .fixedMarkers

/-- The number of different markers among two. -/
def countDistinct (m n : Markers) : Nat := [m, n].eraseDups.length

theorem ofStrings_self (m : Markers) : ofStrings m.start m.stop = .ok m := by
  simp [ofStrings, ofValues, marker, m.start_ne, m.stop_ne, bind, Except.bind, pure, Except.pure]

end Markers

end Stencil
