import Stencil.Yaml.Spot

/-!
# Styles of scalars

A scalar is written in the plainest style that gives it back: without quotes if nothing in it could be
taken for something else, between single quotes if no character has to be escaped, and between double
quotes otherwise.

* `Style.ofText`: the style of a text;
* `isShown`: whether a character may stand unescaped.
-/

namespace Stencil.Yaml

/-- The style of a scalar. -/
inductive Style
  /-- Without quotes. -/
  | plain
  /-- Between single quotes. -/
  | single
  /-- Between double quotes, with escapes. -/
  | double
  deriving DecidableEq, Inhabited

/-- Whether a character may stand unescaped in a document. -/
def isShown (c : Char) : Bool :=
  let n := c.toNat
  n == 0x0A || (0x20 ≤ n && n ≤ 0x7E) || n == 0x85 || (0xA0 ≤ n && n ≤ 0xFFFD && n != 0xFEFF) ||
    (0x10000 ≤ n && n < 0x10FFFF)

/-- Whether a line ends at a character that may stand unescaped. -/
def isShownBreak (c : Char) : Bool := c != '\r' && isBreak c

/-- The characters that mean something in front of a node. -/
def indicators : List Char :=
  ['#', ',', '[', ']', '\x7b', '\x7d', '&', '*', '!', '|', '>', '\'', '"', '%', '@', Char.ofNat 0x60]

/-- Whether a gap follows: a blank, a tab, the end of a line or the end of the text. -/
def endsHere : List Char → Bool
  | [] => true
  | c :: _ => isGap c

/-- Whether the characters behind a first one, which was `last`, hold a mark of a value or of a
    comment. -/
def hasInnerMark (last : Char) : List Char → Bool
  | [] => false
  | c :: r => (c == ':' && endsHere r) || (c == '#' && isGap last) || hasInnerMark c r

/-- Whether something in a text could be taken for a mark. -/
def hasMark : List Char → Bool
  | [] => false
  | c :: r =>
    ['-', '.'].any (fun m => (c :: r).take 3 == [m, m, m]) || indicators.contains c ||
      (['?', ':', '-'].contains c && endsHere r) || hasInnerMark c r

/-- Whether two conditions hold of neighbours somewhere in a text. -/
def hasNeighbours (p q : Char → Bool) : List Char → Bool
  | c :: d :: r => (p c && q d) || hasNeighbours p q (d :: r)
  | _ => false

namespace Style

/-- Whether a text can stand without quotes and is read as it is. -/
def allowsPlain (cs : List Char) : Bool :=
  cs.head?.all (· != ' ') && cs.getLast?.all (· != ' ') && cs.all isShown &&
    !cs.any isShownBreak && !hasMark cs

/-- Whether a text can stand between single quotes: no blank is next to a line break. -/
def allowsSingle (cs : List Char) : Bool :=
  cs.all isShown && !hasNeighbours isShownBreak (· == ' ') cs &&
    !hasNeighbours (· == ' ') isShownBreak cs

/-- The style of a text. It can be plain only if a plain scalar of the text has the right tag. -/
def ofText (plainTag : Bool) (cs : List Char) : Style :=
  if plainTag && allowsPlain cs then .plain else if allowsSingle cs then .single else .double

end Style

end Stencil.Yaml
