import Stencil.Text.Printable
import Stencil.Text.Ragged

/-!
# Quoted texts

The form in which a text is shown to a reader: between quotes, on one line, and
with everything that cannot be printed written as an escape. The quotes are
single ones, except around a text that holds single quotes and no double ones.

* `quoted`, `quoteCodes`: a text in quotes, and a text of code points;
* `quoteFor_eq_or`: the quote is one of the two.
-/

namespace Stencil.Text

/-- The last `width` digits of `n` in base sixteen, in lower case. -/
def hexDigits : (width : Nat) → (n : Nat) → List Char
  | 0, _ => []
  | width + 1, n => hexDigits width (n / 16) ++ [Nat.digitChar (n % 16)]

@[simp]
theorem length_hexDigits (width n : Nat) : (hexDigits width n).length = width := by
  induction width generalizing n with
  | zero => rfl
  | succ width ih => simp [hexDigits, ih]

/-- The quote that a text is shown in. -/
def quoteFor (cs : List Char) : Char :=
  if cs.contains '\'' && !cs.contains '"' then '"' else '\''

theorem quoteFor_eq_or (cs : List Char) : quoteFor cs = '"' ∨ quoteFor cs = '\'' := by
  unfold quoteFor
  split
  · exact .inl rfl
  · exact .inr rfl

/-- The escape of a character by its code point: two, four or eight digits,
    whichever is the first to be enough. -/
def escapeByCode (c : Char) : List Char :=
  if c.toNat ≤ 0xFF then '\\' :: 'x' :: hexDigits 2 c.toNat
  else if c.toNat ≤ 0xFFFF then '\\' :: 'u' :: hexDigits 4 c.toNat
  else '\\' :: 'U' :: hexDigits 8 c.toNat

/-- A character as it stands between the quotes `quote`. -/
def showChar (quote c : Char) : List Char :=
  if c = quote ∨ c = '\\' then ['\\', c]
  else if c = '\t' then ['\\', 't']
  else if c = '\n' then ['\\', 'n']
  else if c = '\r' then ['\\', 'r']
  else if isPrintable c then [c]
  else escapeByCode c

/-- A text in quotes, as a list of characters. -/
def quote (cs : List Char) : List Char :=
  let q := quoteFor cs
  q :: cs.flatMap (showChar q) ++ [q]

/-- A text in quotes. -/
def quoted (s : String) : String := String.ofList (quote s.toList)

/-- A code point as it stands between the quotes `quote`. A surrogate is always escaped. -/
def showCode (quote : Char) : CodePoint → List Char
  | .char c => showChar quote c
  | .surrogate i => '\\' :: 'u' :: hexDigits 4 (0xD800 + i)

/-- A text of code points in quotes. -/
def quoteCodes (ps : List CodePoint) : List Char :=
  let q := quoteFor (ps.map CodePoint.shown)
  q :: ps.flatMap (showCode q) ++ [q]

end Stencil.Text
