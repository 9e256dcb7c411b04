import Stencil.Error.Basic
import Stencil.Json.Reader
import Stencil.Text.LowerCase

/-!
# Values of environment variables

The text of an environment variable stands for a truth value, an integer, a decimal number, a JSON
list or object, or else for itself. Blanks around it do not count, except in a text that stands for
itself.

* `Coercion.truth?`, `integer`, `decimal?`, `structured`: the readings, one by one;
* `Coercion.read`: the first reading that succeeds.
-/

namespace Stencil.Coercion

open Stencil.Text

/-- The truth value that a text stands for. -/
def truth? (cs : List Char) : Option Value :=
  let low := lowerFrom [] (trim cs)
  if low = "true".toList then some (.bool true)
  else if low = "false".toList then some (.bool false)
  else none

/-- The integer that a text stands for. One with too many digits is a breach, and so is one with
    blanks around it that may not stand around a number. -/
def integer (cs : List Char) : Except Breach (Option Value) :=
  let (negative, ds) := Numeral.splitSign (trim cs)
  if ds.isEmpty || !ds.all isDigit then .ok none
  -- The text looks like a number, but an ASCII separator beside it spoils it.
  else if Numeral.trimMargins cs ≠ trim cs then .error .badNumber
  else if Numeral.maxDigits < ds.length then .error .longInteger
  else
    .ok ((Numeral.digits? ds).map fun n => .int (if negative then -(n : Int) else n))

/-- The decimal number that a text stands for: digits with a point, and no exponent. -/
def decimal? (cs : List Char) : Option Value :=
  let (negative, ds) := Numeral.splitSign (trim cs)
  let (whole, r) := Numeral.spanDigits ds
  match r with
  | '.' :: r =>
    let (fraction, r) := Numeral.spanDigits r
    if r.isEmpty && !(whole.isEmpty && fraction.isEmpty) then
      (Numeral.digits? (whole ++ fraction)).map fun n =>
        .float (Double.ofDecimal negative n (-fraction.length))
    else none
  | _ => none

/-- Whether a text stands between brackets of one kind. -/
def isBracketed (cs : List Char) : Bool :=
  (cs.head? == some '\x7b' && cs.getLast? == some '\x7d') ||
    (cs.head? == some '[' && cs.getLast? == some ']')

/-- The JSON list or object that a text stands for. -/
def structured (cs : List Char) : Except Breach (Option Value) :=
  let cs := trim cs
  if isBracketed cs then
    match Json.read cs with
    | .ok .null => .ok none
    | .ok v => .ok (some v)
    | .error .malformed => .ok none
    | .error .tooDeep => .error .tooDeep
  else .ok none

/-- The value that a text stands for. -/
def read (s : String) : Except Breach Value := do
  let cs := s.toList
  if let some v := truth? cs then return v
  if let some v ← integer cs then return v
  if let some v := decimal? cs then return v
  if let some v ← structured cs then return v
  return .str s

end Stencil.Coercion
