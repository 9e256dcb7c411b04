import Stencil.Yaml.Token.Mark
import Stencil.Yaml.Token.Scalar

/-!
# The tokens of a text

A text is cut into tokens from left to right. The columns of the block collections that are open form
a stack; a token further to the left closes those to the right of it. A key on one line is only known
to be one when its colon comes, at most 1024 characters later, so the places where a key may have begun
are remembered, one for every open bracket, and the tokens for the key and its mapping are put there
afterwards.

* `Lexer.step`: the next token;
* `Token.ofText`: the tokens of a text.
-/

namespace Stencil.Yaml

/-- A place where a key may have begun. -/
structure KeyStart where
  /-- The number of tokens before it. -/
  place : Nat
  /-- Whether nothing but a key may stand there. -/
  required : Bool
  spot : Spot
  deriving DecidableEq, Inhabited

/-- The greatest number of characters from the beginning of a key to its colon. -/
def maxKeyLength : Nat := 1024

/-- What is known about the text so far. -/
structure Lexer where
  /-- The tokens, the newest one first. -/
  tokens : List Token
  /-- The column of the innermost open block collection, or `-1`. -/
  indent : Int
  /-- The columns of those around it, innermost first. -/
  indents : List Int
  /-- Whether a key may begin here. -/
  keyAllowed : Bool
  /-- Where a key may have begun, for every open bracket and, at the end, outside of all. -/
  keys : List (Option KeyStart)
  deriving Inhabited

namespace Lexer

/-- The beginning of a text. -/
def start : Lexer := ⟨[], -1, [], true, [none]⟩

/-- Whether a bracket is open. -/
def inFlow (l : Lexer) : Bool := 1 < l.keys.length

/-- One more token. -/
def emit (l : Lexer) (t : Token) : Lexer := { l with tokens := t :: l.tokens }

/-- A token put in front of those behind a place. -/
def insert (l : Lexer) (place : Nat) (t : Token) : Lexer :=
  -- The newest tokens come first, so those behind the place are in front.
  let newer := l.tokens.length - place
  { l with tokens := l.tokens.take newer ++ t :: l.tokens.drop newer }

/-- Whether keys may begin from now on. -/
def allowKey (l : Lexer) (allowed : Bool) : Lexer := { l with keyAllowed := allowed }

/-! ## Block collections -/

/-- The collections to the right of a column closed. -/
def closeTo (column : Int) (l : Lexer) : List Int → Lexer
  | [] => { l with indents := [] }
  | outer :: outers =>
    if column < l.indent then
      closeTo column { l with indent := outer, tokens := .blockEnd :: l.tokens } outers
    else { l with indents := outer :: outers }

/-- The collections to the right of a column closed, unless a bracket is open. -/
def close (l : Lexer) (column : Int) : Lexer := if l.inFlow then l else closeTo column l l.indents

/-- Whether a collection at a column lies inside of all that are open. -/
def isInner (l : Lexer) (column : Nat) : Bool := l.indent < column

/-- One more collection at a column. -/
def push (l : Lexer) (column : Nat) : Lexer :=
  { l with indent := column, indents := l.indent :: l.indents }

/-- A collection opened at a column, unless it is open already. -/
def openBlock (l : Lexer) (column : Nat) (t : Token) : Lexer :=
  if l.isInner column then (l.push column).emit t else l

/-! ## Keys -/

/-- No key has begun at the innermost level. -/
def dropKey (l : Lexer) : Except Failure Lexer :=
  match l.keys with
  | some k :: keys => if k.required then reject .lostColon else .ok { l with keys := none :: keys }
  | _ => .ok l

/-- A key may have begun at a place. -/
def saveKey (l : Lexer) (s : Spot) : Except Failure Lexer :=
  if l.keyAllowed then do
    -- In the column of an open block collection nothing but a key can stand.
    let required := !l.inFlow && l.indent == s.column
    let l ← l.dropKey
    return { l with keys := some ⟨l.tokens.length, required, s⟩ :: l.keys.drop 1 }
  else .ok l

/-- Whether a key that has begun can have its colon at a place. -/
def KeyStart.reaches (k : KeyStart) (s : Spot) : Bool :=
  k.spot.line == s.line && s.index ≤ k.spot.index + maxKeyLength

/-- The keys without those that cannot have their colons any more. -/
def dropStale (s : Spot) : List (Option KeyStart) → Except Failure (List (Option KeyStart))
  | [] => .ok []
  | none :: keys => (dropStale s keys).map (none :: ·)
  | some k :: keys =>
    if KeyStart.reaches k s then (dropStale s keys).map (some k :: ·)
    else if k.required then reject .lostColon
    else (dropStale s keys).map (none :: ·)

/-! ## Tokens -/

/-- A token that is no part of a collection and ends all of them. -/
def border (l : Lexer) (t : Token) : Except Failure Lexer := do
  let l ← (l.close (-1)).dropKey
  return (l.allowKey false).emit t

/-- An opening bracket. -/
def openFlow (l : Lexer) (s : Spot) (t : Token) : Except Failure Lexer := do
  let l ← l.saveKey s
  return { (l.allowKey true).emit t with keys := none :: l.keys }

/-- A closing bracket. -/
def closeFlow (l : Lexer) (s : Spot) (t : Token) : Except Failure Lexer := do
  if !l.inFlow then reject (.unopened s.char)
  let l ← l.dropKey
  return { (l.allowKey false).emit t with keys := l.keys.drop 1 }

/-- A comma. -/
def comma (l : Lexer) : Except Failure Lexer := do
  let l ← l.dropKey
  return (l.allowKey true).emit .comma

/-- A dash in front of an item. -/
def item (l : Lexer) (s : Spot) : Except Failure Lexer := do
  if !l.inFlow && !l.keyAllowed then reject (.misplaced '-')
  let l := if l.inFlow then l else l.openBlock s.column .blockSequence
  let l ← l.dropKey
  return (l.allowKey true).emit .item

/-- A question mark in front of a key. -/
def explicitKey (l : Lexer) (s : Spot) : Except Failure Lexer := do
  if !l.inFlow && !l.keyAllowed then reject (.misplaced '?')
  let l := if l.inFlow then l else l.openBlock s.column .blockMapping
  let l ← l.dropKey
  return (l.allowKey (!l.inFlow)).emit .key

/-- A colon in front of a value, after a key on the same line. -/
def valueOfKey (l : Lexer) (k : KeyStart) : Lexer :=
  -- The token for the mapping is put there after the one for the key, and so
  -- it stands in front of it.
  let l := { l with keys := none :: l.keys.drop 1 }.insert k.place .key
  let l :=
    if !l.inFlow && l.isInner k.spot.column then
      (l.push k.spot.column).insert k.place .blockMapping
    else l
  (l.allowKey false).emit .value

/-- A colon in front of a value. -/
def value (l : Lexer) (s : Spot) : Except Failure Lexer := do
  match l.keys with
  | some k :: _ => return l.valueOfKey k
  | _ =>
    -- The key was introduced by a question mark, or is empty.
    if !l.inFlow && !l.keyAllowed then reject (.misplaced ':')
    let l := if l.inFlow then l else l.openBlock s.column .blockMapping
    return (l.allowKey (!l.inFlow)).emit .value

/-- A token that may begin a key. -/
def node (l : Lexer) (s : Spot) (t : Token) : Except Failure Lexer := do
  let l ← l.saveKey s
  return (l.allowKey false).emit t

/-- A scalar that may begin a key; if it ends in a line break, keys may begin behind it. -/
def plain (l : Lexer) (s : Spot) (r : Rest) : Except Failure (Lexer × Rest) := do
  let (text, broken, r) := readPlain l.inFlow (l.indent + 1) (r.length + 1) r
  let l ← l.node s (.scalar (.whole (String.ofList text)) true)
  return (l.allowKey broken, r)

/-- A quoted scalar. -/
def quoted (l : Lexer) (s : Spot) (r : Rest) : Except Failure (Lexer × Rest) := do
  let l ← l.saveKey s
  let (text, r) ← readQuoted (s.char == '"') (r.length + 1) r
  return ((l.allowKey false).emit (.scalar (.ofCodes text) false), r)

/-- A block of lines as a scalar. -/
def block (l : Lexer) (s : Spot) (r : Rest) : Except Failure (Lexer × Rest) := do
  let l ← l.dropKey
  let (text, r) ← readBlock (s.char == '>') l.indent r
  return ((l.allowKey true).emit (.scalar (.whole (String.ofList text)) false), r)

/-- Whether a plain scalar begins at a character that `next` follows. -/
def beginsPlain (flow : Bool) (c next : Char) : Bool :=
  (!isGap c && !"-?:,[]\x7b\x7d#&*!|>'\"%@`".toList.contains c) ||
    (!isGap next && (c == '-' || (!flow && (c == '?' || c == ':'))))

/-- The token that begins with the character of `s`, where `r` follows it. -/
def step (l : Lexer) (s : Spot) (r : Rest) : Except Failure (Lexer × Rest) :=
  let whole := s :: r
  let alone := isGap (peek r)
  let one (x : Except Failure Lexer) : Except Failure (Lexer × Rest) := x.map (·, r)
  -- Directives and the borders of documents count only at the beginning of a line.
  if s.char = '%' ∧ s.column = 0 then do
    let (d, rest) ← readDirective whole
    return (← l.border (.directive d), rest)
  else if s.column = 0 ∧ isBorder '-' whole then (l.border .documentStart).map (·, r.drop 2)
  else if s.column = 0 ∧ isBorder '.' whole then (l.border .documentEnd).map (·, r.drop 2)
  else if s.char = '[' then one (l.openFlow s .flowSequence)
  else if s.char = '\x7b' then one (l.openFlow s .flowMapping)
  else if s.char = ']' then one (l.closeFlow s .flowSequenceEnd)
  else if s.char = '\x7d' then one (l.closeFlow s .flowMappingEnd)
  else if s.char = ',' then one l.comma
  -- Outside of brackets these three are marks only if a gap follows.
  else if s.char = '-' ∧ alone then one (l.item s)
  else if s.char = '?' ∧ (l.inFlow ∨ alone) then one (l.explicitKey s)
  else if s.char = ':' ∧ (l.inFlow ∨ alone) then one (l.value s)
  else if s.char = '*' then do
    let (name, rest) ← readName whole
    return (← l.node s (.alias name), rest)
  else if s.char = '&' then do
    let (name, rest) ← readName whole
    return (← l.node s (.anchor name), rest)
  else if s.char = '!' then do
    let (t, rest) ← readTag whole
    return (← l.node s (.tag t), rest)
  else if (s.char = '|' ∨ s.char = '>') ∧ !l.inFlow then l.block s r
  else if s.char = '\'' ∨ s.char = '"' then l.quoted s r
  else if beginsPlain l.inFlow s.char (peek r) then l.plain s whole
  else reject (.stray s.char)

/-- What follows blanks, comments and line breaks, and whether there was a line break. -/
def skipToToken (inComment : Bool) : Rest → Bool × Rest
  | [] => (false, [])
  | s :: r =>
    if isBreak s.char then (true, (skipToToken false r).2)
    else if inComment || s.char == '#' then skipToToken true r
    else if s.char = ' ' then skipToToken false r
    else (false, s :: r)

/-- The end of the text. -/
def finish (l : Lexer) : Except Failure Lexer := do
  let l ← (l.close (-1)).dropKey
  return l.emit .streamEnd

/-- The tokens from a place on, together with those before it. -/
def run : (fuel : Nat) → Lexer → Rest → List Token
  | 0, l, _ => l.tokens.reverse
  | fuel + 1, l, r =>
    let (broken, r) := skipToToken false r
    -- Outside of brackets every new line may begin with a key.
    let l := if broken && !l.inFlow then l.allowKey true else l
    match r with
    | [] =>
      match l.finish with
      | .ok l => l.tokens.reverse
      | .error f => (l.tokens.reverse) ++ [.broken f]
    | s :: r =>
      let next := do
        let keys ← dropStale s l.keys
        ({ l with keys }.close s.column).step s r
      match next with
      | .ok (l, r) => run fuel l r
      | .error f => l.tokens.reverse ++ [.broken f]

end Lexer

/-- A text without the mark of the byte order in front. -/
def withoutMark (r : Rest) : Rest := if peek r = byteOrderMark then r.drop 1 else r

/-- The tokens of a text. -/
def Token.ofText (cs : List Char) : List Token :=
  match cs.find? fun c => !isAllowed c with
  | some c => [.broken (.flaw (.unprintable c))]
  | none => Lexer.run (cs.length + 1) .start (withoutMark (spots cs))

end Stencil.Yaml
