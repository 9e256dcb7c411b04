import Stencil.Text.Quoted
import Stencil.Yaml.Style

/-!
# Written scalars

The text of a scalar in a style. A text that goes beyond the width of a line is folded at a blank:
a line break and the indentation stand for it. A line break of the text itself is doubled, and the line
after it is indented. Between double quotes every code point can be written, and a line can be broken
anywhere with a backslash.

* `Style.write`, `Style.writeDouble`: a scalar in a style, and one of code points;
* `Frame.folded_of_folds_eq_false`: without folding, a text on one line stays as it is.
-/

namespace Stencil.Yaml

/-- The column behind which lines are folded. -/
def width : Nat := 80

/-- Blanks. -/
def blanks (n : Nat) : List Char := List.replicate n ' '

/-- A line break and the indentation of the next line. -/
def newLine (indent : Nat) : List Char := '\n' :: blanks indent

/-- Where a scalar is written. -/
structure Frame where
  /-- Whether long lines are folded. -/
  folds : Bool
  /-- The indentation of all lines but the first. -/
  indent : Nat
  deriving DecidableEq, Inhabited

namespace Frame

/-- A text behind a character `last`, from a column on. A single blank between two words is replaced
    where it stands beyond the width. -/
def folded (f : Frame) (last : Char) (column : Nat) : List Char → List Char
  | [] => []
  | c :: r =>
    if isShownBreak c then
      -- A single line feed would be read as a blank, so the first of several is
      -- written twice; only the last of them is followed by the indentation.
      let doubled := if c = '\n' ∧ !isShownBreak last then ['\n', '\n'] else [c]
      if r.head?.any isShownBreak then doubled ++ f.folded c 0 r
      else doubled ++ blanks f.indent ++ f.folded c f.indent r
    else if c = ' ' ∧ last ≠ ' ' ∧ r.head?.any (· != ' ') ∧ f.folds ∧ width < column then
      newLine f.indent ++ f.folded c f.indent r
    else c :: f.folded c (column + 1) r

/-- Without folding, a text on one line stays as it is. -/
theorem folded_of_folds_eq_false {f : Frame} (hf : f.folds = false) (last : Char) (column : Nat)
    {cs : List Char} (h : ∀ c ∈ cs, isShownBreak c = false) : f.folded last column cs = cs := by
  induction cs generalizing last column with
  | nil => rfl
  | cons c cs ih =>
    simp only [List.mem_cons, forall_eq_or_imp] at h
    simp [folded, h.1, hf, ih _ _ h.2]

/-! ## Escapes -/

/-- The escapes that have a name of one character. -/
def namedEscapes : List (Nat × Char) :=
  [(0x00, '0'), (0x07, 'a'), (0x08, 'b'), (0x09, 't'), (0x0A, 'n'), (0x0B, 'v'), (0x0C, 'f'),
    (0x0D, 'r'), (0x1B, 'e'), (0x22, '"'), (0x5C, '\\'), (0x85, 'N'), (0xA0, '_'), (0x2028, 'L'),
    (0x2029, 'P')]

/-- Whether a character stands between double quotes as it is. -/
def isRaw (c : Char) : Bool :=
  c != '"' && c != '\\' && isShown c && !isShownBreak c && c.toNat < 0x10000

/-- The character that a code point is, if it stands between double quotes as it is. -/
def raw? : CodePoint → Option Char
  | .char c => if isRaw c then some c else none
  | .surrogate _ => none

theorem raw?_eq_some {p : CodePoint} {c : Char} (h : raw? p = some c) : p = .char c ∧ isRaw c := by
  cases p with
  | char d =>
    rw [raw?] at h
    split at h
    · next hd => exact ⟨congrArg _ (Option.some.inj h), Option.some.inj h ▸ hd⟩
    · cases h
  | surrogate i => cases h

/-- The last `digits` digits of a number in base sixteen, in upper case. -/
def codeDigits (digits n : Nat) : List Char := (Text.hexDigits digits n).map Char.toUpper

/-- The escape of a code point. -/
def escape (p : CodePoint) : List Char :=
  match namedEscapes.lookup p.toNat with
  | some name => ['\\', name]
  | none =>
    if p.toNat ≤ 0xFF then '\\' :: 'x' :: codeDigits 2 p.toNat
    else if p.toNat ≤ 0xFFFF then '\\' :: 'u' :: codeDigits 4 p.toNat
    else '\\' :: 'U' :: codeDigits 8 p.toNat

/-- The backslash in front of a blank that begins a line. -/
def guardOf (p : Option CodePoint) : List Char := if p = some (.char ' ') then ['\\'] else []

/-- A text between double quotes, from a column on. A line is broken beyond the width, at a blank or
    behind an escape, but neither at the first character nor at the last one. -/
def escaped (f : Frame) (first afterEscape : Bool) (column : Nat) : List CodePoint → List Char
  | [] => []
  | p :: r =>
    -- A backslash hides the line break, and another one keeps a blank at the
    -- beginning of the next line.
    let breaks := f.folds && !first && !r.isEmpty
    match raw? p with
    | some c =>
      if breaks ∧ (c = ' ' ∨ afterEscape) ∧ width < column then
        let start := guardOf (some p)
        '\\' :: newLine f.indent ++ start ++
          c :: f.escaped false false (f.indent + start.length + 1) r
      else c :: f.escaped false false (column + 1) r
    | none =>
      let column := column + (escape p).length
      if breaks ∧ width + 1 < column then
        let start := guardOf r.head?
        escape p ++ '\\' :: newLine f.indent ++ start ++
          f.escaped false true (f.indent + start.length) r
      else escape p ++ f.escaped false true column r

end Frame

/-! ## Styles -/

/-- A quote is written twice between single quotes. -/
def doubleQuotes (cs : List Char) : List Char :=
  cs.flatMap fun c => if c = '\'' then ['\'', '\''] else [c]

namespace Style

/-- A scalar between double quotes, from a column on. -/
def writeDouble (f : Frame) (column : Nat) (ps : List CodePoint) : List Char :=
  '"' :: f.escaped true false (column + 1) ps ++ ['"']

/-- A scalar in a style, from a column on. -/
def write (f : Frame) (column : Nat) (cs : List Char) : Style → List Char
  | .plain => f.folded ' ' column cs
  | .single => '\'' :: f.folded ' ' (column + 1) (doubleQuotes cs) ++ ['\'']
  | .double => writeDouble f column (cs.map .char)

end Style

end Stencil.Yaml
