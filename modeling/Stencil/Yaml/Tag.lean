import Stencil.Number.Numeral
import Stencil.Text.Pieces
import Stencil.Yaml.Timestamp

/-!
# Tags

The tag of a node says of what kind its value is. A plain scalar without a tag gets one from its
text: it is a null, a truth value, a number, a timestamp, a merge key or a default key if it is
written like one, and a text otherwise.

* `Tag.name`, `Tag.ofName`: tags by their names;
* `Tag.ofPlain`: the tag of a plain scalar.
-/

namespace Stencil.Yaml

/-- The tag of a node. -/
inductive Tag
  | null
  | bool
  | int
  | float
  | str
  | timestamp
  /-- The key whose value is merged into its mapping. -/
  | merge
  /-- The key of a default value. -/
  | default
  | seq
  | map
  | other (name : String)
  deriving DecidableEq, Inhabited

namespace Tag

/-- What the names of the usual tags begin with. -/
def domain : String := "tag:yaml.org,2002:"

/-- The usual tags with the ends of their names. -/
def usual : List (String × Tag) :=
  [("null", null), ("bool", bool), ("int", int), ("float", float), ("str", str),
    ("timestamp", timestamp), ("merge", merge), ("value", default), ("seq", seq), ("map", map)]

/-- The tag of a name. -/
def ofName (name : String) : Tag :=
  ((usual.find? fun p => domain ++ p.1 = name).map (·.2)).getD (.other name)

/-- The short name of a tag. -/
def name : Tag → String
  | .other name => name
  | t => ((usual.find? fun p => p.2 = t).map (·.1)).getD ""

/-! ## Plain scalars -/

/-- The spellings of truth values. -/
def truthWords : List String :=
  ["yes", "Yes", "YES", "no", "No", "NO", "true", "True", "TRUE", "false", "False", "FALSE", "on",
    "On", "ON", "off", "Off", "OFF"]

/-- The spellings of null. -/
def nullWords : List String := ["", "~", "null", "Null", "NULL"]

/-- Whether a character is a digit, or an underscore, which may stand between digits. -/
def isDigitOrLow (c : Char) : Bool := c.isDigit || c == '_'

/-- Whether a text is not empty and made of characters that satisfy a condition. -/
def isRun (p : Char → Bool) (cs : List Char) : Bool := !cs.isEmpty && cs.all p

/-- Whether a text is a number of minutes or seconds below sixty, in one digit or two. -/
def isSixtieth : List Char → Bool
  | [a] => a.isDigit
  | [a, b] => '0' ≤ a && a ≤ '5' && b.isDigit
  | _ => false

/-- Whether a text is a digit that satisfies a condition, followed by digits. -/
def isNumber (first : Char → Bool) : List Char → Bool
  | [] => false
  | c :: r => first c && r.all isDigitOrLow

/-- Whether a text is a number in base sixty, whose first digit satisfies a condition. -/
def isSexagesimal (first : Char → Bool) (cs : List Char) : Bool :=
  match Text.pieces ':' cs with
  | head :: tail => isNumber first head && !tail.isEmpty && tail.all isSixtieth
  | [] => false

/-- Whether a digit is not zero. -/
def isPositiveDigit (c : Char) : Bool := '1' ≤ c && c ≤ '9'

/-- Whether a text is written like an integer: in base two, eight, ten, sixteen or sixty. -/
def isInteger (cs : List Char) : Bool :=
  let ds := (Numeral.splitSign cs).2
  let low (p : Char → Bool) (c : Char) := p c || c == '_'
  isNumber isPositiveDigit ds || isSexagesimal isPositiveDigit ds ||
    match ds with
    | '0' :: 'b' :: r => isRun (low fun c => c == '0' || c == '1') r
    | '0' :: 'x' :: r => isRun (low fun c => c.isDigit || ('a' ≤ c.toLower && c.toLower ≤ 'f')) r
    | '0' :: r => r.all (low fun c => '0' ≤ c && c ≤ '7')
    | _ => false

/-- Whether a text is an exponent with a sign, or nothing. -/
def isExponent : List Char → Bool
  | [] => true
  | e :: sign :: r => (e == 'e' || e == 'E') && (sign == '-' || sign == '+') && isRun Char.isDigit r
  | _ => false

/-- Whether a text is written like a number with a point. -/
def isFloat (cs : List Char) : Bool :=
  let (whole, tail) := cs.span (· != '.')
  let unsigned := (Numeral.splitSign whole).2
  match tail with
  | [] => false
  | _ :: r =>
    let (fraction, ending) := r.span isDigitOrLow
    (isNumber Char.isDigit unsigned && isExponent ending) ||
      (whole.isEmpty && isNumber Char.isDigit fraction && isExponent ending) ||
      (isSexagesimal Char.isDigit unsigned && ending.isEmpty) ||
      (unsigned.isEmpty && ["inf", "Inf", "INF"].contains (String.ofList r)) ||
      (whole.isEmpty && ["nan", "NaN", "NAN"].contains (String.ofList r))

/-- A text without the line break at its end, unless it is nothing else. -/
def withoutFinalBreak (cs : List Char) : List Char :=
  if 1 < cs.length && cs.getLast? == some '\n' then cs.dropLast else cs

/-- The tag of a plain scalar. A line break at its end does not count. -/
def ofPlain (text : String) : Tag :=
  let cs := withoutFinalBreak text.toList
  let word := String.ofList cs
  if truthWords.contains word then .bool
  else if isFloat cs then .float
  else if isInteger cs then .int
  else if word = "<<" then .merge
  else if nullWords.contains word then .null
  else if Timestamp.isPlain cs then .timestamp
  else if word = "=" then .default
  else .str

end Tag

end Stencil.Yaml
