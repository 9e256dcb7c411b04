import Stencil.Error.Basic

/-!
# Values read as mappings

Some inputs are mappings in the widest sense: a mapping, or anything that can be gone through item
by item where each item is a pair, such as a list of pairs. Everything that counts as false may
stand for the empty mapping.

* `Value.toMapping`: the mapping that a value describes.
-/

namespace Stencil

/-- The items that a value is made of, if it can be gone through. -/
def Value.items? : Value → Option (List Value)
  | .str s => some (s.toList.map fun c => .str (String.ofList [c]))
  | .ragged t => some (t.codes.map fun p => .ofText (.ofCodes [p]))
  | .list vs => some vs
  | .tuple vs => some vs
  | .map es => some (es.map fun e => e.1.toValue)
  | .scalar _ => none

/-- The mapping with the entry that an item of a list describes. -/
def Mapping.putItem (m : Mapping) (item : Value) : Except Breach Mapping :=
  match item.items? with
  | none => .error .noMapping
  | some [k, v] =>
    match k.toKey? with
    | some k => .ok (m.put k v)
    | none => .error .unusableKey
  | some _ => .error .noPair

/-- The mapping that a value describes: its entries, or those that its items are. -/
def Value.toMapping (v : Value) : Except Breach Mapping :=
  match v with
  | .map es => .ok es
  | v =>
    match v.items? with
    | none => .error .noMapping
    | some items => items.foldlM Mapping.putItem []

/-- The mapping that a value describes, where all that counts as false describes the empty one. -/
def Value.toMappingOrEmpty (v : Value) : Except Breach Mapping :=
  if v.truth then v.toMapping else .ok []

/-- The report of a failure that a caller describes by hand. The name is that of a mandatory
    placeholder without a value, and is not used by the other categories. -/
def Report.custom (category : Category) (message : Option String) (context : Value) (name : String) :
    Except Breach Report :=
  match category with
  | .unbound => context.toMappingOrEmpty.map (Report.unbound name (message.getD ""))
  | category =>
    (if context = .null then .ok [] else context.toMapping).map fun m =>
      ⟨category, message.getD "", m⟩

end Stencil
