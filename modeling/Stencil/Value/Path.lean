import Stencil.Error.Basic
import Stencil.Text.Pieces

/-!
# Paths

Places in nested mappings, named by the keys on the way to them.

* `Value.at?`: what stands at a path;
* `Path.ofDotted`: the path that a dotted name spells;
* `Mapping.setAt`: a mapping with a value put at a path; whatever is in the way and is no mapping is
  replaced by one;
* `Value.nested`: a value below a path that holds nothing else;
* `at?_setAt_self`: what was put at a path is found there.
-/

namespace Stencil

/-- What stands at a path. -/
def Value.at? : Value → List String → Option Value
  | v, [] => some v
  | .map m, k :: ks => (Mapping.getStr? m k).bind fun v => v.at? ks
  | _, _ :: _ => none

/-- The path that a dotted name spells. -/
def Path.ofDotted (name : String) : List String := (Text.pieces '.' name.toList).map String.ofList

/-- The path that a dotted name spells, without the empty pieces. -/
def Path.pieces (name : String) : List String := (Path.ofDotted name).filter (· ≠ "")

/-- The value below a path that holds nothing else. -/
def Value.nested (path : List String) (v : Value) : Value :=
  path.foldr (fun k w => .map [(.str k, w)]) v

namespace Mapping

/-- The mapping that stands under a key; the empty one, if there is something else or nothing. -/
def below (m : Mapping) (k : String) : Mapping :=
  match m.getStr? k with
  | some (.map sub) => sub
  | _ => []

/-- The mapping with a value put at the path `k :: ks`. -/
def setAt (m : Mapping) (k : String) : (ks : List String) → (v : Value) → Mapping
  | [], v => m.putStr k v
  | l :: ls, v => m.putStr k (.map (setAt (m.below k) l ls v))

/-- The mapping with a value put at a path, which must not be empty. -/
def setPath (m : Mapping) (path : List String) (v : Value) : Except Breach Mapping :=
  match path with
  | [] => .error .emptyPath
  | k :: ks => .ok (m.setAt k ks v)

/-- A value with another one put at a path. Only a mapping can be changed that way. -/
def setPathIn (root : Value) (path : List String) (v : Value) : Except Breach Value :=
  match root, path with
  | .map m, path => (setPath m path v).map .map
  | _, [] => .error .emptyPath
  | _, [_] => .error .unfillable
  | _, _ :: _ :: _ => .error .noEntries

theorem getStr?_putStr_self (m : Mapping) (k : String) (v : Value) :
    (m.putStr k v).getStr? k = some v :=
  get?_put_same (Key.same_self _) m v

theorem getStr?_putStr_of_ne {k l : String} (h : l ≠ k) (m : Mapping) (v : Value) :
    (m.putStr l v).getStr? k = m.getStr? k :=
  get?_put_of_not_same (by simpa using h) m v

/-- What was put at a path is found there. -/
theorem at?_setAt_self (m : Mapping) (k : String) (ks : List String) (v : Value) :
    (Value.map (m.setAt k ks v)).at? (k :: ks) = some v := by
  induction ks generalizing m k with
  | nil => simp [setAt, Value.at?, getStr?_putStr_self]
  | cons l ls ih =>
    have step := ih (m.below k) l
    simp only [setAt]
    rw [Value.at?, getStr?_putStr_self]
    exact step

end Mapping

end Stencil
