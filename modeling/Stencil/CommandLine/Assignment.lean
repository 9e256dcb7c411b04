import Stencil.Error.Basic

/-!
# Assignments on the command line

An assignment `NAME=VALUE` binds what stands before the first equals sign to all that stands behind
it; both may be empty. Of several assignments to a name the last one counts.

* `Assignment.split?`: the name and the value of an assignment;
* `Assignment.bindings`: the bindings that a list of assignments makes.
-/

namespace Stencil.Assignment

/-- The name and the value of an assignment, as lists of characters. -/
def splitChars? : List Char → Option (List Char × List Char)
  | [] => none
  | '=' :: r => some ([], r)
  | c :: r => (splitChars? r).map fun p => (c :: p.1, p.2)

/-- The name and the value of an assignment. -/
def split? (item : String) : Option (String × String) :=
  (splitChars? item.toList).map fun p => (String.ofList p.1, String.ofList p.2)

/-- The bindings made by a list of assignments on top of others. -/
def bindings (m : Mapping) (items : List String) : Except Error Mapping :=
  items.foldlM bind m
where
  /-- The bindings with one more assignment. -/
  bind (m : Mapping) (item : String) : Except Error Mapping :=
    match split? item with
    | some (name, value) => .ok (m.putStr name (.str value))
    | none => .error (.badAssignment item)

theorem splitChars?_append {name : List Char} (h : '=' ∉ name) (value : List Char) :
    splitChars? (name ++ '=' :: value) = some (name, value) := by
  induction name with
  | nil => rfl
  | cons c name ih =>
    simp only [List.mem_cons, not_or] at h
    simp [splitChars?, ih h.2, Ne.symm h.1]

end Stencil.Assignment
