import Stencil.Text.LowerCase
import Stencil.Value.Mapping
import Stencil.Yaml.Token.Lexer
import Stencil.Yaml.Node
import Stencil.Yaml.Number

/-!
# Trees

A tree is a node whose scalars have been read and whose merges have been carried out: the entries of
a merged mapping come before those of the mapping that it is merged into, and of several merged
mappings the first one comes last. Where that is not possible the tree has a fault. Trees are searched
for faults level by level, from the root on, and the first fault found is the failure.

* `Node.toTree`: the tree of a node;
* `Tree.firstFault?`: the first fault of a tree;
* `Tree.value`: the value of a tree without faults.
-/

namespace Stencil.Yaml

/-- A tree. -/
inductive Tree
  | scalar (s : Scalar)
  | list (items : List Tree)
  | map (entries : List (Tree × Tree))
  /-- There is no value here. -/
  | fault (f : Failure)
  /-- There is a collection here whose parts cannot be found. -/
  | brokenParts (f : Failure)
  deriving Inhabited

/-! ## Scalars -/

/-- The truth values by their names. -/
def truthNames : List (String × Bool) :=
  [("yes", true), ("no", false), ("true", true), ("false", false), ("on", true), ("off", false)]

/-- The scalar that a text stands for under a tag. Only a text may have surrogates in it. -/
def readScalar (tag : Tag) (text : CodeText) : Except Failure Scalar :=
  match tag with
  | .null => .ok .null
  | .bool =>
    match truthNames.lookup (Text.lower text.shown) with
    | some b => .ok (.bool b)
    | none => violate .badTruth
  | .int => (integer text.shown.toList).map .int
  | .float => (float text.shown.toList).map .float
  | .str => .ok (.ofText text)
  | .timestamp =>
    match Timestamp.ofChars? (Tag.withoutFinalBreak text.shown.toList) with
    | some t =>
      match t.scalar? with
      | some s => .ok s
      | none => violate .noSuchDate
    | none => violate .badDate
  | t => reject (.unknownTag t.name)

namespace Tag

/-- Whether a tag is one of a scalar. -/
def isScalar : Tag → Bool
  | .null => true
  | .bool => true
  | .int => true
  | .float => true
  | .str => true
  | .timestamp => true
  | _ => false

/-- What is left of a collection under a tag that is not its own. -/
def misfit (t : Tag) : Tree :=
  if t.isScalar then .fault (.flaw (.wrongShape t.name))
  else if t = .seq ∨ t = .map then .brokenParts (.flaw (.wrongShape t.name))
  else .fault (.flaw (.unknownTag t.name))

end Tag

/-! ## Nodes -/

namespace Node

/-- Whether a node is a key for a merge. -/
def isMerge : Node → Bool
  | .scalar t _ => t == .merge
  | .sequence t _ => t == .merge
  | .mapping t _ => t == .merge

/-- The tree of a scalar. -/
def scalarTree (tag : Tag) (text : CodeText) : Tree :=
  if tag = .seq ∨ tag = .map then tag.misfit
  else
    match readScalar tag text with
    | .ok s => .scalar s
    | .error f => .fault f

/-- The tree of a key with a given tree, where the default key is a text. -/
def keyTree : Node → Tree → Tree
  | .scalar .default text, _ => .scalar (.ofText text)
  | _, t => t

/-- The entries that are merged into a mapping, followed by its own. -/
def allEntries (p : List (Tree × Tree) × List (Tree × Tree)) : List (Tree × Tree) := p.1 ++ p.2

mutual

/-- The tree of a node. -/
def toTree : Node → Tree
  | .scalar tag text => scalarTree tag text
  | .sequence tag items => if tag = .seq then .list (toTrees items) else tag.misfit
  | .mapping tag entries =>
    if tag = .map then
      match splitEntries entries with
      | .ok p => .map (allEntries p)
      | .error f => .brokenParts f
    else tag.misfit

/-- The trees of the items of a sequence. -/
def toTrees : List Node → List Tree
  | [] => []
  | n :: ns => n.toTree :: toTrees ns

/-- The entries that are merged into a mapping, and its own. -/
def splitEntries :
    List (Node × Node) → Except Failure (List (Tree × Tree) × List (Tree × Tree))
  | [] => .ok ([], [])
  | (k, v) :: entries =>
    if k.isMerge then do
      let merged ← v.mergedEntries
      let (more, own) ← splitEntries entries
      return (merged ++ more, own)
    else do
      let (merged, own) ← splitEntries entries
      return (merged, (k.keyTree k.toTree, v.toTree) :: own)

/-- The entries that a node adds to a mapping that it is merged into. -/
def mergedEntries : Node → Except Failure (List (Tree × Tree))
  | .scalar _ _ => reject .unmergeable
  | .sequence _ items => mergedItems items
  | .mapping _ entries => (splitEntries entries).map allEntries

/-- The entries that the items of a sequence add, those of the last item first. -/
def mergedItems : List Node → Except Failure (List (Tree × Tree))
  | [] => .ok []
  | .mapping _ entries :: items => do
    -- The entries of the first item come last, and so they win.
    let p ← splitEntries entries
    return (← mergedItems items) ++ allEntries p
  | _ :: _ => reject .unmergeable

end

end Node

/-! ## Faults and values -/

namespace Tree

/-- The faults of two neighbours, level by level. -/
def beside : List (List Failure) → List (List Failure) → List (List Failure)
  | [], levels => levels
  | levels, [] => levels
  | fs :: levels, gs :: levels' => (fs ++ gs) :: beside levels levels'

/-- Whether a tree can be a key: no collection can. -/
def isKey : Tree → Bool
  | .scalar _ => true
  | .fault _ => true
  | _ => false

/-- The faults of a tree: its own, then those of its parts, and so on. -/
def faults : Tree → List (List Failure)
  | .scalar _ => []
  | .fault f => [[f]]
  | .brokenParts f => [[], [f]]
  | .list items => [] :: itemFaults items
  | .map entries => [] :: entryFaults entries
where
  /-- The faults of the items of a list. -/
  itemFaults : List Tree → List (List Failure)
    | [] => []
    | t :: ts => beside t.faults (itemFaults ts)
  /-- The faults of the entries of a mapping. -/
  entryFaults : List (Tree × Tree) → List (List Failure)
    | [] => []
    | (k, v) :: es =>
      let key := if k.isKey then k.faults else [[.flaw .unusableKey]]
      beside (beside key v.faults) (entryFaults es)

/-- The first fault of a tree. -/
def firstFault? (t : Tree) : Option Failure := t.faults.flatten.head?

/-- The key that a tree is. -/
def key : Tree → Key
  | .scalar s => .scalar s
  | _ => .scalar .null

/-- The value of a tree; a fault has none, and null stands for it. -/
def value : Tree → Value
  | .scalar s => .scalar s
  | .list items => .list (values items)
  | .map entries => .map (Mapping.ofPairs (pairs entries))
  | .fault _ => .null
  | .brokenParts _ => .null
where
  /-- The values of the items of a list. -/
  values : List Tree → List Value
    | [] => []
    | t :: ts => t.value :: values ts
  /-- The entries of a mapping, as they are written. -/
  pairs : List (Tree × Tree) → List (Key × Value)
    | [] => []
    | (k, v) :: es => (k.key, v.value) :: pairs es

end Tree

/-! ## Documents -/

/-- The value of a text with at most one document. No document has the value null. -/
def read (text : String) : Except Failure Value := do
  match ← Node.ofTokens (Token.ofText text.toList) with
  | none => return .null
  | some n =>
    let t := n.toTree
    match t.firstFault? with
    | some f => throw f
    | none => return t.value

end Stencil.Yaml
