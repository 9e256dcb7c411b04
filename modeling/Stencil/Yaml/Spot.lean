import Stencil.Yaml.Flaw

/-!
# Characters in their places

The lay-out of a YAML document carries meaning, so it is read as a list of characters that know where
they stand. Past the end of a document there is, by convention, the null character, which no document
contains.

* `spots`: the characters of a text in their places;
* `peek`, `peekAt`: the next characters;
* `takeBreak`: a line break, as it counts in a text.
-/

namespace Stencil.Yaml

/-- A character in its place. -/
structure Spot where
  char : Char
  /-- The number of characters before it. -/
  index : Nat
  /-- The number of lines before its line. -/
  line : Nat
  /-- The number of characters before it on its line. -/
  column : Nat
  deriving DecidableEq, Inhabited

/-- What is left to read of a document. -/
abbrev Rest := List Spot

/-! ## Classes of characters -/

/-- The character that stands for the end of a document. -/
def endMark : Char := Char.ofNat 0

/-- The mark of the byte order, which may begin a document. -/
def byteOrderMark : Char := Char.ofNat 0xFEFF

/-- Whether a character breaks lines. -/
def isBreak (c : Char) : Bool :=
  c == '\n' || c == '\r' || c.toNat == 0x85 || c.toNat == 0x2028 || c.toNat == 0x2029

/-- Whether a line ends before a character. -/
def isLineEnd (c : Char) : Bool := c == endMark || isBreak c

/-- Whether a word ends before a character, where tabs do not end one. -/
def isSpaceOrEnd (c : Char) : Bool := c == ' ' || isLineEnd c

/-- Whether a word ends before a character. -/
def isGap (c : Char) : Bool := c == '\t' || isSpaceOrEnd c

/-- Whether a character may stand in the name of an anchor. -/
def isNameChar (c : Char) : Bool := c.isAlphanum || c == '-' || c == '_'

/-- Whether a character may stand in a document. -/
def isAllowed (c : Char) : Bool :=
  let n := c.toNat
  n == 9 || n == 10 || n == 13 || (32 ≤ n && n ≤ 126) || n == 0x85 || (0xA0 ≤ n && n ≤ 0xFFFD) ||
    0x10000 ≤ n

/-! ## Places -/

/-- Characters in their places, the first one in a given place. -/
def spotsFrom (index line column : Nat) : List Char → Rest
  | [] => []
  | c :: cs =>
    ⟨c, index, line, column⟩ ::
      if isBreak c && !(c == '\r' && cs.head? == some '\n') then spotsFrom (index + 1) (line + 1) 0 cs
      else spotsFrom (index + 1) line (if c = byteOrderMark then column else column + 1) cs

/-- The characters of a text in their places. -/
def spots (cs : List Char) : Rest := spotsFrom 0 0 0 cs

/-- The characters in their places are the text. -/
@[simp]
theorem map_char_spotsFrom (index line column : Nat) (cs : List Char) :
    (spotsFrom index line column cs).map (·.char) = cs := by
  induction cs generalizing index line column with
  | nil => rfl
  | cons c cs ih =>
    simp only [spotsFrom, List.map_cons]
    split <;> simp [ih]

/-! ## Looking ahead -/

/-- The next character. -/
def peek : Rest → Char
  | [] => endMark
  | s :: _ => s.char

/-- The character after `n` others. -/
def peekAt (n : Nat) (r : Rest) : Char := peek (r.drop n)

/-- The column of the next character, if there is one. -/
def column? : Rest → Option Nat
  | [] => none
  | s :: _ => some s.column

/-- The characters in front that satisfy a condition, and what follows them. -/
def takeChars (p : Char → Bool) : Rest → List Char × Rest
  | [] => ([], [])
  | s :: r =>
    if p s.char then
      let (cs, r) := takeChars p r
      (s.char :: cs, r)
    else ([], s :: r)

/-- What follows the characters in front that satisfy a condition. -/
def skipChars (p : Char → Bool) (r : Rest) : Rest := r.dropWhile fun s => p s.char

/-- What follows the blanks in front. -/
def skipSpaces (r : Rest) : Rest := skipChars (· == ' ') r

/-- What follows a comment, if there is one in front. -/
def skipComment (r : Rest) : Rest :=
  if peek r = '#' then skipChars (fun c => !isLineEnd c) r else r

/-- A line break as it counts in a text, and what follows it. Without a break there is nothing. -/
def takeBreak : Rest → List Char × Rest
  | [] => ([], [])
  | s :: r =>
    if s.char = '\r' ∧ peek r = '\n' then (['\n'], r.drop 1)
    else if s.char = '\n' ∨ s.char = '\r' ∨ s.char.toNat = 0x85 then (['\n'], r)
    else if isBreak s.char then ([s.char], r)
    else ([], s :: r)

/-- Whether three characters of one kind, and no more, stand in front: the border of a document. -/
def isBorder (c : Char) (r : Rest) : Bool :=
  peek r == c && peekAt 1 r == c && peekAt 2 r == c && isGap (peekAt 3 r)

end Stencil.Yaml
