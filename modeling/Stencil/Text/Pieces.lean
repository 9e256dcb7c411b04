/-!
# Pieces of a text

A text cut at every occurrence of a character. There is always one piece more than there are
occurrences, and the pieces may be empty.

* `pieces`: the pieces, in order;
* `join_pieces`: the pieces give the text back when joined.
-/

namespace Stencil.Text

/-- The pieces of a text between the occurrences of a character. -/
def pieces (separator : Char) : List Char → List (List Char)
  | [] => [[]]
  | c :: r =>
    if c = separator then [] :: pieces separator r
    else
      match pieces separator r with
      | [] => [[c]]
      | p :: ps => (c :: p) :: ps

/-- Pieces joined by a character. -/
def join (separator : Char) : List (List Char) → List Char
  | [] => []
  | [p] => p
  | p :: ps => p ++ separator :: join separator ps

theorem pieces_ne_nil (separator : Char) (cs : List Char) : pieces separator cs ≠ [] := by
  fun_induction pieces separator cs <;> simp

/-- The pieces give the text back when joined. -/
theorem join_pieces (separator : Char) (cs : List Char) :
    join separator (pieces separator cs) = cs := by
  fun_induction pieces separator cs with
  | case1 => rfl
  | case2 r ih =>
    match h : pieces separator r with
    | [] => exact absurd h (pieces_ne_nil _ r)
    | p :: ps => simp_all [join]
  | case3 c r _ h =>
    -- There is always a piece.
    exact absurd h (pieces_ne_nil _ r)
  | case4 c r _ p ps h ih =>
    rw [h] at ih
    cases ps with
    | nil => simp_all [join]
    | cons q ps => simp_all [join]

end Stencil.Text
