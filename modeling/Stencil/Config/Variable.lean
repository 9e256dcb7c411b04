import Stencil.Config.Coercion
import Stencil.Sort
import Stencil.Value.Path

/-!
# Environment variables

A variable `TEXTPARSER_<section>__<key>` overrides an entry of the configuration. What follows the
first underscore is cut at every pair of underscores, from left to right, and the pieces in lower case
are the path of the entry. A variable without a pair of underscores there overrides nothing.

* `Variable.segments`: the pieces of a name, which give it back when joined (`join_segments`);
* `Variable.path`: the path of the entry that a variable overrides;
* `Variable.relevant`: the variables of an environment that count, in order.
-/

namespace Stencil.Variable

/-- What the names of the variables start with. -/
def front : String := "TEXTPARSER_"

/-- A text cut at every pair of underscores, from left to right. -/
def segments : List Char → List (List Char)
  | [] => [[]]
  | '_' :: '_' :: r => [] :: segments r
  | c :: r =>
    match segments r with
    | [] => [[c]]
    | s :: ss => (c :: s) :: ss

/-- Pieces joined by pairs of underscores. -/
def join : List (List Char) → List Char
  | [] => []
  | [s] => s
  | s :: ss => s ++ '_' :: '_' :: join ss

theorem segments_ne_nil (cs : List Char) : segments cs ≠ [] := by
  fun_induction segments cs <;> simp

/-- The pieces give the text back when joined. -/
theorem join_segments (cs : List Char) : join (segments cs) = cs := by
  fun_induction segments cs with
  | case1 => rfl
  | case2 r ih =>
    match h : segments r with
    | [] => exact absurd h (segments_ne_nil r)
    | s :: ss => simp_all [join]
  | case3 c r _ h => exact absurd h (segments_ne_nil r)
  | case4 c r _ s ss h ih =>
    rw [h] at ih
    cases ss with
    | nil => simp_all [join]
    | cons t ss => simp_all [join]

/-- The path of the entry that a variable overrides, from its name without the front. -/
def path (rest : String) : Except Error (List String) :=
  let pieces := segments rest.toList
  if pieces.any List.isEmpty then .error (.emptySegment rest)
  else .ok (pieces.map fun p => Text.lower (String.ofList p))

/-- An environment: the variables and their texts. -/
abbrev Environment := List (String × String)

/-- The variables of an environment whose names start with the front, in the order of their names. -/
def relevant (env : Environment) : Environment :=
  sort (fun p q => p.1 ≤ q.1) (env.filter fun p => front.toList.isPrefixOf p.1.toList)

/-- The name of a variable without the front. -/
def rest (name : String) : String := String.ofList (name.toList.drop front.length)

/-- Whether a name without the front has a pair of underscores. -/
def isOverride (rest : String) : Bool := 1 < (segments rest.toList).length

end Stencil.Variable
