import Stencil.Number.Numeral
import Stencil.Value.Mapping

/-!
# Reading JSON

The value of a JSON text. Beyond the standard, `NaN`, `Infinity` and `-Infinity` are numbers. In an
object the last one of several equal keys decides. Integers may have `Numeral.maxDigits` digits at
most, and lists and objects may be nested `maxNesting` deep.

* `Json.readString?`: a text up to its closing quote;
* `Json.readNumber?`: a number;
* `Json.read`: the value of a whole text.
-/

namespace Stencil.Json

/-- Why a text has no value. -/
inductive Flaw
  /-- It is no JSON text. -/
  | malformed
  /-- It is nested too deeply. -/
  | tooDeep
  deriving DecidableEq, Inhabited

/-- How deep lists and objects may be nested. -/
def maxNesting : Nat := 980

/-- Whether a character may stand between the parts of a JSON text. -/
def isSpace (c : Char) : Bool := c == ' ' || c == '\t' || c == '\n' || c == '\r'

/-- A text without the space in front. -/
def skipSpace (cs : List Char) : List Char := cs.dropWhile isSpace

/-! ## Texts -/

/-- A UTF-16 unit of four digits in base sixteen. -/
def readUnit? : List Char → Option (Nat × List Char)
  | a :: b :: c :: d :: r => (Numeral.inBase? 16 [a, b, c, d]).map (·, r)
  | _ => none

/-- The character of the second unit of a surrogate pair, if the text goes on with its escape. -/
def readPair? (high : Nat) : List Char → Option (Char × List Char)
  | '\\' :: 'u' :: r =>
    (readUnit? r).bind fun p =>
      if 0xDC00 ≤ p.1 ∧ p.1 ≤ 0xDFFF then
        some (Char.ofNat (0x10000 + (high - 0xD800) * 1024 + (p.1 - 0xDC00)), p.2)
      else none
  | _ => none

/-- The code point of a unit, where `rest` follows its escape. A surrogate without its partner stands
    for itself. -/
def unitCode (unit : Nat) (rest : List Char) : CodePoint × List Char :=
  if 0xD800 ≤ unit ∧ unit ≤ 0xDBFF then
    match readPair? unit rest with
    | some (c, r) => (.char c, r)
    | none => (.ofNat unit, rest)
  else (.ofNat unit, rest)

/-- The character that is escaped by one character. -/
def shortEscape? : Char → Option Char
  | '"' => some '"'
  | '\\' => some '\\'
  | '/' => some '/'
  | 'b' => some (Char.ofNat 8)
  | 'f' => some (Char.ofNat 12)
  | 'n' => some '\n'
  | 'r' => some '\r'
  | 't' => some '\t'
  | _ => none

/-- A text up to its closing quote, and what follows it. The text has at most `fuel` code points. -/
def readString? : (fuel : Nat) → List Char → Option (List CodePoint × List Char)
  | 0, _ => none
  | _ + 1, [] => none
  | fuel + 1, '\\' :: 'u' :: r =>
    (readUnit? r).bind fun p =>
      let (c, r) := unitCode p.1 p.2
      (readString? fuel r).map fun q => (c :: q.1, q.2)
  | fuel + 1, '\\' :: e :: r =>
    (shortEscape? e).bind fun c => (readString? fuel r).map fun q => (.char c :: q.1, q.2)
  | fuel + 1, c :: r =>
    if c = '"' then some ([], r)
    else if c.toNat < 32 ∨ c = '\\' then none
    else (readString? fuel r).map fun q => (.char c :: q.1, q.2)

/-! ## Numbers -/

/-- The ASCII digits in front of a text, and the rest. -/
def spanDigits (cs : List Char) : List Char × List Char := cs.span Char.isDigit

/-- The fraction in front of a text, if there is one: its digits and the rest. -/
def readFraction (cs : List Char) : List Char × List Char :=
  match cs with
  | '.' :: r =>
    match spanDigits r with
    | ([], _) => ([], cs)
    | p => p
  | _ => ([], cs)

/-- The exponent in front of a text, if there is one: its value and the rest. -/
def readExponent (cs : List Char) : Option Int × List Char :=
  match cs with
  | c :: r =>
    if c = 'e' ∨ c = 'E' then
      let (negative, ds) := Numeral.splitSign r
      match spanDigits ds with
      | ([], _) => (none, cs)
      | (ds, rest) =>
        let n : Nat := (Numeral.digits? ds).getD 0
        (some (if negative then -(n : Int) else n), rest)
    else (none, cs)
  | [] => (none, cs)

/-- The digits before the point: a zero, or digits that start with another one. -/
def readWhole? (cs : List Char) : Option (List Char × List Char) :=
  match cs with
  | '0' :: r => some (['0'], r)
  | _ =>
    match spanDigits cs with
    | ([], _) => none
    | p => some p

/-- A number without its sign, and what follows it. -/
def readUnsigned? (negative : Bool) (cs : List Char) : Option (Value × List Char) :=
  (readWhole? cs).bind fun (whole, r) =>
    let (fraction, r) := readFraction r
    let (exponent, r) := readExponent r
    -- A point or an exponent without digits belongs to what follows.
    if fraction.isEmpty && exponent.isNone then
      if Numeral.maxDigits < whole.length then none
      else (Numeral.digits? whole).map fun n => (.int (if negative then -(n : Int) else n), r)
    else
      (Numeral.digits? (whole ++ fraction)).map fun n =>
        (.float (Double.ofDecimal negative n (exponent.getD 0 - fraction.length)), r)

/-- A number, and what follows it. -/
def readNumber? : List Char → Option (Value × List Char)
  | '-' :: r => readUnsigned? true r
  | cs => readUnsigned? false cs

/-- The words that are values. -/
def words : List (List Char × Value) :=
  [("null".toList, .null), ("true".toList, .bool true), ("false".toList, .bool false),
    ("NaN".toList, .float .nan), ("Infinity".toList, .float (.infinite false)),
    ("-Infinity".toList, .float (.infinite true))]

/-- The word that a text starts with, and what follows it. -/
def readWord? (cs : List Char) : Option (Value × List Char) :=
  (words.find? fun w => w.1.isPrefixOf cs).map fun w => (w.2, cs.drop w.1.length)

/-! ## Values -/

/-- A scalar, and what follows it. -/
def readScalar? (cs : List Char) : Option (Value × List Char) :=
  match cs with
  | '"' :: r => (readString? cs.length r).map fun p => (.ofText (.ofCodes p.1), p.2)
  | _ => (readWord? cs).or (readNumber? cs)

/-- The name of a member with its colon, and the value that follows it. -/
def readName : List Char → Except Flaw (Key × List Char)
  | '"' :: cs =>
    match readString? (cs.length + 1) cs with
    | none => .error .malformed
    | some (name, r) =>
      match skipSpace r with
      | ':' :: r => .ok (.ofText (.ofCodes name), skipSpace r)
      | _ => .error .malformed
  | _ => .error .malformed

mutual

/-- A value, and what follows it. At most `nesting` levels may open, and `fuel` bounds the steps. -/
def readValue (nesting : Nat) : (fuel : Nat) → List Char → Except Flaw (Value × List Char)
  | 0, _ => .error .malformed
  | fuel + 1, cs =>
    match cs with
    | '[' :: r =>
      -- The bracket counts before anything behind it is looked at.
      match nesting, skipSpace r with
      | 0, _ => .error .tooDeep
      | _ + 1, ']' :: r => .ok (.list [], r)
      | nesting + 1, r => (readItems nesting fuel r).map fun p => (.list p.1, p.2)
    | '\x7b' :: r =>
      match nesting, skipSpace r with
      | 0, _ => .error .tooDeep
      | _ + 1, '\x7d' :: r => .ok (.map [], r)
      | nesting + 1, r =>
        (readMembers nesting fuel r).map fun p => (.map (Mapping.ofPairs p.1), p.2)
    | _ =>
      match readScalar? cs with
      | some p => .ok p
      | none => .error .malformed

/-- The items of a list up to its closing bracket, and what follows it. -/
def readItems (nesting : Nat) :
    (fuel : Nat) → List Char → Except Flaw (List Value × List Char)
  | 0, _ => .error .malformed
  | fuel + 1, cs => do
    let (v, r) ← readValue nesting fuel cs
    match skipSpace r with
    | ',' :: r => (readItems nesting fuel (skipSpace r)).map fun p => (v :: p.1, p.2)
    | ']' :: r => .ok ([v], r)
    | _ => .error .malformed

/-- The members of an object up to its closing brace, and what follows it. -/
def readMembers (nesting : Nat) :
    (fuel : Nat) → List Char → Except Flaw (List (Key × Value) × List Char)
  | 0, _ => .error .malformed
  | fuel + 1, cs => do
    let (key, r) ← readName cs
    let (v, r) ← readValue nesting fuel r
    match skipSpace r with
    | ',' :: r =>
      (readMembers nesting fuel (skipSpace r)).map fun p => ((key, v) :: p.1, p.2)
    | '\x7d' :: r => .ok ([(key, v)], r)
    | _ => .error .malformed

end

/-- The value of a whole text. -/
def read (cs : List Char) : Except Flaw Value := do
  let (v, r) ← readValue maxNesting (2 * cs.length + 1) (skipSpace cs)
  if (skipSpace r).isEmpty then return v else .error .malformed

end Stencil.Json
