/-!
# Spans of characters

Classes of characters are tables of spans: pairs of code points, the first and
the last one of a run of consecutive characters.
-/

namespace Stencil.Text

/-- A run of consecutive code points, given by its first and its last one. -/
abbrev Span := Nat × Nat

/-- Whether a character lies in one of the spans of a table. -/
def Span.cover (table : List Span) (c : Char) : Bool :=
  table.any fun s => s.1 ≤ c.toNat && c.toNat ≤ s.2

end Stencil.Text
