import Stencil.Value.Entries

/-!
# Merging mappings

Layers of a configuration are laid over each other: where both layers hold a mapping under a key the
two are merged in turn, otherwise the upper layer replaces what the lower one holds. The merged
mapping lists the keys of the lower layer first, in their order, and then the new ones.

* `Mapping.merge`: one mapping laid over another;
* `Mapping.merge_nil`: the empty mapping, laid over a mapping, changes nothing;
* `Mapping.mergeAll`: any number of layers, the lowest one first.
-/

namespace Stencil.Mapping

mutual

/-- The mapping `upper` laid over the mapping `lower`. -/
def merge (lower : Mapping) : (upper : Mapping) → Mapping
  | [] => lower
  | (k, v) :: upper => merge (put lower k (mergeValue (get? lower k) v)) upper

/-- A value laid over what was there before, if anything. -/
def mergeValue (lower : Option Value) : (upper : Value) → Value
  | .map upper =>
    match lower with
    | some (.map lower) => .map (merge lower upper)
    | _ => .map upper
  | v => v

end

/-- Layers laid over each other, the lowest one first. -/
def mergeAll (layers : List Mapping) : Mapping := layers.foldl merge []

@[simp]
theorem merge_nil (m : Mapping) : merge m [] = m := by simp [merge]

@[simp]
theorem mergeValue_none (v : Value) : mergeValue none v = v := by
  cases v <;> simp [mergeValue]

/-- Any two values merged: the lower one is read as a mapping, the upper one has to be a mapping
    unless it counts as false. -/
def mergeInputs (lower upper : Value) : Except Breach Mapping := do
  let lower ← lower.toMapping
  match upper.truth, upper with
  | false, _ => return lower
  | true, .map upper => return merge lower upper
  | true, _ => .error .noEntries

end Stencil.Mapping
