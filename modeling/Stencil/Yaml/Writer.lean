import Stencil.Text.Blank
import Stencil.Yaml.OfValue
import Stencil.Yaml.ScalarText

/-!
# Writing YAML

The text of a node in block style. A collection is set in by two more blanks than the line that it
belongs to, except for a sequence under a key, which stands right below it. A key that is short and on
one line stands in front of its value; any other one gets a line of its own.

* `Node.text`: the text of a document;
* `Yaml.write`: the document of a value;
* `Yaml.display`: the same without the blanks at its end.
-/

namespace Stencil.Yaml

namespace Node

/-- The style of a scalar, which keeps its tag. Surrogates can only be escaped. -/
def styleOf (tag : Tag) : CodeText → Style
  | .whole s => Style.ofText (Tag.ofPlain s = tag) s.toList
  | .ragged _ => .double

/-- A scalar from a column on, the lines after the first one set in by `indent`. -/
def scalarText (folds : Bool) (indent column : Nat) (tag : Tag) : CodeText → List Char
  | .whole s => (styleOf tag (.whole s)).write ⟨folds, indent⟩ column s.toList
  | .ragged t => Style.writeDouble ⟨folds, indent⟩ column t.codes

/-- The length from which on a key gets a line of its own. -/
def longKey : Nat := 128

/-- Whether a node can be a key in front of its value: an empty collection, or a scalar that is neither
    empty nor long and stands on one line. -/
def isInlineKey : Node → Bool
  | .scalar tag text =>
    !text.shown.isEmpty && !text.shown.toList.any isShownBreak &&
      ("!!" ++ tag.name).length + text.shown.length < longKey
  | .sequence _ items => items.isEmpty
  | .mapping _ entries => entries.isEmpty

mutual

/-- A node behind a mark that stands at `indent`. -/
def afterMark (indent : Nat) : Node → List Char
  | .scalar tag text => ' ' :: scalarText true (indent + 2) (indent + 2) tag text
  | .sequence _ [] => [' ', '[', ']']
  | .sequence _ (n :: ns) =>
    ' ' :: (newLine (indent + 2)).intercalate (itemLines (indent + 2) (n :: ns))
  | .mapping _ [] => [' ', '\x7b', '\x7d']
  | .mapping _ (e :: es) =>
    ' ' :: (newLine (indent + 2)).intercalate (entryLines (indent + 2) (e :: es))

/-- A node behind the key of an entry at `indent`, which ends at `column`. -/
def afterKey (indent column : Nat) : Node → List Char
  | .scalar tag text => ' ' :: scalarText true (indent + 2) (column + 1) tag text
  | .sequence _ [] => [' ', '[', ']']
  | .sequence _ (n :: ns) =>
    newLine indent ++ (newLine indent).intercalate (itemLines indent (n :: ns))
  | .mapping _ [] => [' ', '\x7b', '\x7d']
  | .mapping _ (e :: es) =>
    newLine (indent + 2) ++ (newLine (indent + 2)).intercalate (entryLines (indent + 2) (e :: es))

/-- The items of a sequence at `indent`. -/
def itemLines (indent : Nat) : List Node → List (List Char)
  | [] => []
  | n :: ns => ('-' :: afterMark indent n) :: itemLines indent ns

/-- The entries of a mapping at `indent`. -/
def entryLines (indent : Nat) : List (Node × Node) → List (List Char)
  | [] => []
  | (k, v) :: es =>
    let entry :=
      if k.isInlineKey then
        -- The value goes on in the line of the key, which shortens that line.
        let key := inlineKey indent k ++ [':']
        key ++ afterKey indent (indent + key.length) v
      else '?' :: afterMark indent k ++ newLine indent ++ ':' :: afterMark indent v
    entry :: entryLines indent es

/-- A key in front of its value. -/
def inlineKey (indent : Nat) : Node → List Char
  | .scalar tag text => scalarText false (indent + 2) indent tag text
  | .sequence _ _ => ['[', ']']
  | .mapping _ _ => ['\x7b', '\x7d']

end

/-- A document. A plain scalar is followed by the mark for the end of the document. -/
def text : Node → List Char
  | .scalar tag text =>
    scalarText true 2 0 tag text ++
      if styleOf tag text = .plain then ['\n', '.', '.', '.', '\n'] else ['\n']
  | .sequence _ [] => ['[', ']', '\n']
  | .sequence _ (n :: ns) => ['\n'].intercalate (itemLines 0 (n :: ns)) ++ ['\n']
  | .mapping _ [] => ['\x7b', '\x7d', '\n']
  | .mapping _ (e :: es) => ['\n'].intercalate (entryLines 0 (e :: es)) ++ ['\n']

end Node

/-- The document of a value. -/
def write (v : Value) : Except Breach String := (Node.ofValue v).map fun n => String.ofList n.text

/-- A text without the blanks at its end. -/
def stripped (s : String) : String := String.ofList (Text.trimEnd s.toList)

/-- The document of a value, without the blanks at its end. -/
def display (v : Value) : Except Breach String := (write v).map stripped

end Stencil.Yaml
