import Stencil.Value.Display
import Stencil.Value.Order
import Stencil.Yaml.Node

/-!
# The node of a value

A value as a tree of texts and tags. Mappings are in the order of their keys, if these can be compared,
and tuples become sequences. An integer of too many digits has no text.

* `Node.ofValue`: the node of a value.
-/

namespace Stencil.Yaml.Node

/-- The style of numbers. -/
def floatStyle : FloatStyle := ⟨".nan", ".inf", true⟩

/-- The node of a scalar. -/
def ofScalar : Scalar → Except Breach Node
  | .null => .ok (.scalar .null (.whole "null"))
  | .bool b => .ok (.scalar .bool (.whole (if b then "true" else "false")))
  | .int i => (textOf (Numeral.intText? i)).map fun s => .scalar .int (.whole s)
  | .float x => .ok (.scalar .float (.whole (x.text floatStyle)))
  | .str s => .ok (.scalar .str (.whole s))
  | .ragged t => .ok (.scalar .str (.ragged t))
  | .date d c => .ok (.scalar .timestamp (.whole (dateText d c)))

/-- The node of a key. -/
def ofKey : Key → Except Breach Node
  | .scalar s => ofScalar s
  | .tuple ks => (ofKeys ks).map (.sequence .seq)
where
  /-- The nodes of the items of a tuple. -/
  ofKeys : List Key → Except Breach (List Node)
    | [] => .ok []
    | k :: ks => do return (← ofKey k) :: (← ofKeys ks)

/-- A value with all its mappings in the order of their keys. -/
def ordered : Value → Value
  | .scalar s => .scalar s
  | .list vs => .list (orderedList vs)
  | .tuple vs => .tuple (orderedList vs)
  | .map es =>
    let es := orderedEntries es
    .map ((Mapping.sorted? es).getD es)
where
  /-- The values of a list with all their mappings in order. -/
  orderedList : List Value → List Value
    | [] => []
    | v :: vs => ordered v :: orderedList vs
  /-- The entries of a mapping with all mappings in their values in order. -/
  orderedEntries : Mapping → Mapping
    | [] => []
    | (k, v) :: es => (k, ordered v) :: orderedEntries es

/-- The node of a value whose mappings are in order. -/
def ofOrdered : Value → Except Breach Node
  | .scalar s => ofScalar s
  | .list vs => (ofItems vs).map (.sequence .seq)
  | .tuple vs => (ofItems vs).map (.sequence .seq)
  | .map es => (ofEntries es).map (.mapping .map)
where
  /-- The nodes of the values of a list. -/
  ofItems : List Value → Except Breach (List Node)
    | [] => .ok []
    | v :: vs => do return (← ofOrdered v) :: (← ofItems vs)
  /-- The nodes of the entries of a mapping. -/
  ofEntries : Mapping → Except Breach (List (Node × Node))
    | [] => .ok []
    | (k, v) :: es => do
      let key ← ofKey k
      let value ← ofOrdered v
      return (key, value) :: (← ofEntries es)

/-- The node of a value. -/
def ofValue (v : Value) : Except Breach Node := ofOrdered (ordered v)

end Stencil.Yaml.Node
