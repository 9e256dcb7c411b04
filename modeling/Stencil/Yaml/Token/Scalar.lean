import Stencil.Number.Numeral
import Stencil.Text.Ragged
import Stencil.Yaml.Spot

/-!
# Scalars as they are written

The texts of scalars in a YAML document. Inside a scalar of several lines a single line break counts
as a blank, and of several line breaks in a row the first one does not count; only the lines of a
literal block stay as they are.

* `readQuoted`: a text between quotes, from behind the opening quote;
* `readPlain`: a text without quotes;
* `readBlock`: a block of lines, from behind its indicator.
-/

namespace Stencil.Yaml

/-- What a break character adds to a text, if `rest` follows it. -/
def breakText (c : Char) (rest : Rest) : List Char :=
  if c = '\r' ∧ peek rest = '\n' then []
  else if c.toNat = 0x2028 ∨ c.toNat = 0x2029 then [c]
  else ['\n']

/-- Whether a character is a blank or a tab. -/
def isSpace (c : Char) : Bool := c == ' ' || c == '\t'

/-- Whether the border of a document stands in front. -/
def atBorder (r : Rest) : Bool := isBorder '-' r || isBorder '.' r

/-- What a line break and the breaks that follow it count for. -/
def foldBreaks (first breaks : List Char) : List Char :=
  if first ≠ ['\n'] then first ++ breaks
  else if breaks.isEmpty then [' ']
  else breaks

/-! ## Quoted texts -/

/-- The characters that are escaped by one character. -/
def shortEscapes : List (Char × Nat) :=
  [('0', 0), ('a', 7), ('b', 8), ('t', 9), ('\t', 9), ('n', 10), ('v', 11), ('f', 12), ('r', 13),
    ('e', 27), (' ', 32), ('"', 34), ('/', 47), ('\\', 92), ('N', 0x85), ('_', 0xA0), ('L', 0x2028),
    ('P', 0x2029)]

/-- The number of digits in an escape by the code point. -/
def codeLength? : Char → Option Nat
  | 'x' => some 2
  | 'u' => some 4
  | 'U' => some 8
  | _ => none

/-- The code point of a number. It may be a surrogate, and two of them are not put together. -/
def codePoint (n : Nat) : Except Failure CodePoint :=
  if 0x10FFFF < n then violate .badCodePoint else .ok (.ofNat n)

/-- The line breaks in front, and the blanks around them. -/
def readQuotedBreaks : (fuel : Nat) → Rest → Except Failure (List Char × Rest)
  | 0, _ => reject .unclosedQuote
  | fuel + 1, r =>
    if atBorder r then reject .borderInQuotes
    else
      let r := skipChars isSpace r
      if isBreak (peek r) then
        let (first, r) := takeBreak r
        (readQuotedBreaks fuel r).map fun p => (first ++ p.1, p.2)
      else .ok ([], r)

/-- An escape, from behind its backslash: what it stands for, and what follows it. -/
def readEscape (r : Rest) : Except Failure (List CodePoint × Rest) :=
  let c := peek r
  match shortEscapes.lookup c, codeLength? c with
  | some n, _ => .ok ([.char (Char.ofNat n)], r.drop 1)
  | none, some size =>
    match Numeral.inBase? 16 ((List.range size).map fun i => peekAt (i + 1) r) with
    | some n => (codePoint n).map fun p => ([p], r.drop (size + 1))
    | none => reject .badEscape
  | none, none =>
    if isBreak c then
      (readQuotedBreaks (r.length + 1) (takeBreak r).2).map fun p => (p.1.map .char, p.2)
    else reject .badEscape

/-- Blanks and line breaks in front of the next word of a quoted text. -/
def readQuotedSpaces (r : Rest) : Except Failure (List Char × Rest) :=
  let (spaces, r) := takeChars isSpace r
  if isBreak (peek r) then
    let (first, r) := takeBreak r
    (readQuotedBreaks (r.length + 1) r).map fun p => (foldBreaks first p.1, p.2)
  else .ok (spaces, r)

/-- A text up to its closing quote, and what follows it. Between double quotes a backslash begins an
    escape; between single quotes two of them stand for one. -/
def readQuoted (double : Bool) : (fuel : Nat) → Rest → Except Failure (List CodePoint × Rest)
  | 0, _ => reject .unclosedQuote
  | _ + 1, [] => reject .unclosedQuote
  | fuel + 1, s :: r =>
    if isSpace s.char || isBreak s.char then do
      let (cs, r) ← readQuotedSpaces (s :: r)
      (readQuoted double fuel r).map fun p => (cs.map .char ++ p.1, p.2)
    else if double && s.char == '\\' then do
      let (ps, r) ← readEscape r
      (readQuoted double fuel r).map fun p => (ps ++ p.1, p.2)
    else if !double && s.char == '\'' && peek r == '\'' then
      (readQuoted double fuel (r.drop 1)).map fun p => (.char '\'' :: p.1, p.2)
    else if s.char = (if double then '"' else '\'') then .ok ([], r)
    else (readQuoted double fuel r).map fun p => (.char s.char :: p.1, p.2)

/-! ## Plain texts -/

/-- Whether a plain text ends before a character that `next` follows. -/
def endsPlain (flow : Bool) (c next : Char) : Bool :=
  isGap c || (c == ':' && (isGap next || (flow && ",[]\x7b\x7d".toList.contains next))) ||
    (flow && ",?[]\x7b\x7d".toList.contains c)

/-- The next word of a plain text, and what follows it. -/
def readWord (flow : Bool) : Rest → List Char × Rest
  | [] => ([], [])
  | s :: r =>
    if endsPlain flow s.char (peek r) then ([], s :: r)
    else
      let (cs, r) := readWord flow r
      (s.char :: cs, r)

/-- Line breaks and blanks between two lines of a plain text, or nothing if the border of a document
    stands at the beginning of a line. -/
def readPlainBreaks : Rest → Option (List Char) × Rest
  | [] => (some [], [])
  | s :: r =>
    if s.char = ' ' then readPlainBreaks r
    else if isBreak s.char then
      if atBorder r then (none, r)
      else
        let (breaks, rest) := readPlainBreaks r
        (breaks.map (breakText s.char r ++ ·), rest)
    else (some [], s :: r)

/-- Blanks and line breaks between two words of a plain text, whether there were line breaks, and
    what follows them. -/
def readPlainSpaces (r : Rest) : List Char × Bool × Rest :=
  let (spaces, r) := takeChars (· == ' ') r
  if isBreak (peek r) then
    let (first, r) := takeBreak r
    if atBorder r then ([], true, r)
    else
      match readPlainBreaks r with
      | (none, r) => ([], true, r)
      | (some breaks, r) => (foldBreaks first breaks, true, r)
  else (spaces, false, r)

/-- A plain text, whether it is followed by a line break, and what follows it. Its lines stand in
    column `indent` or behind it. -/
def readPlain (flow : Bool) (indent : Int) : (fuel : Nat) → Rest → List Char × Bool × Rest
  | 0, r => ([], false, r)
  | fuel + 1, r =>
    let (word, r) := readWord flow r
    let (spaces, broken, r) := readPlainSpaces r
    let inside := match column? r with
      | some column => flow || indent ≤ column
      | none => false
    -- Without blanks before it a mark has ended the word, and with blanks a
    -- comment, a line further to the left or a mark ends the text.
    if spaces.isEmpty || peek r == '#' || !inside || (readWord flow r).1.isEmpty then
      (word, broken, r)
    else
      let (text, broken, r) := readPlain flow indent fuel r
      (word ++ spaces ++ text, broken, r)

/-! ## Blocks -/

/-- What becomes of the line breaks at the end of a block. -/
inductive Chomping
  | strip
  /-- One of them stays. -/
  | clip
  | keep
  deriving DecidableEq, Inhabited

/-- The chomping that a character asks for. -/
def Chomping.ofChar? : Char → Option Chomping
  | '-' => some .strip
  | '+' => some .keep
  | _ => none

/-- The indentation that a character asks for, which must not be zero. -/
def readIncrement (r : Rest) : Except Failure (Option Nat × Rest) :=
  if peek r = '0' then reject .badBlockHeader
  else if (peek r).isDigit then .ok (some ((peek r).toNat - 48), r.drop 1)
  else .ok (none, r)

/-- The chomping and the indentation that a block asks for, in any order, and what follows the line
    they stand on. -/
def readBlockHeader (r : Rest) : Except Failure (Chomping × Option Nat × Rest) := do
  let (chomping, increment, r) ←
    match Chomping.ofChar? (peek r) with
    | some chomping => do
      let (increment, r) ← readIncrement (r.drop 1)
      pure (chomping, increment, r)
    | none => do
      let (increment, r) ← readIncrement r
      match increment, Chomping.ofChar? (peek r) with
      | some _, some chomping => pure (chomping, increment, r.drop 1)
      | _, _ => pure (.clip, increment, r)
  if !isSpaceOrEnd (peek r) then reject .badBlockHeader
  let r := skipComment (skipSpaces r)
  if !isLineEnd (peek r) then reject .badBlockHeader
  return (chomping, increment, (takeBreak r).2)

/-- The empty lines at the beginning of a block, the greatest column that their blanks reach, and
    what follows them. -/
def readLeading : Rest → List Char × Nat × Rest
  | [] => ([], 0, [])
  | s :: r =>
    if s.char = ' ' then
      let (breaks, reach, rest) := readLeading r
      (breaks, max reach (s.column + 1), rest)
    else if isBreak s.char then
      let (breaks, reach, rest) := readLeading r
      (breakText s.char r ++ breaks, reach, rest)
    else ([], 0, s :: r)

/-- The empty lines in front of a line of a block, and what follows them and the indentation. -/
def readBlockBreaks (indent : Nat) : Rest → List Char × Rest
  | [] => ([], [])
  | s :: r =>
    if s.char = ' ' ∧ s.column < indent then readBlockBreaks indent r
    else if isBreak s.char then
      let (breaks, rest) := readBlockBreaks indent r
      (breakText s.char r ++ breaks, rest)
    else ([], s :: r)

/-- The lines of a block. -/
structure BlockLines where
  /-- The text up to the end of the last line. -/
  text : List Char
  /-- The line break after the last line. -/
  last : List Char
  /-- The empty lines after that. -/
  trailing : List Char
  rest : Rest

/-- The lines of a block, where `breaks` are the empty lines in front of the next one. -/
def readLines (folded : Bool) (indent : Nat) : (fuel : Nat) → (breaks : List Char) → Rest → BlockLines
  | 0, breaks, r => ⟨[], [], breaks, r⟩
  | fuel + 1, breaks, r =>
    if column? r ≠ some indent then ⟨[], [], breaks, r⟩
    else
      let (line, rest) := takeChars (fun c => !isLineEnd c) r
      let (first, rest) := takeBreak rest
      let (more, rest) := readBlockBreaks indent rest
      if column? rest ≠ some indent then ⟨breaks ++ line, first, more, rest⟩
      else
        -- Two lines are joined only if neither of them is set in any further.
        let joined := folded && first == ['\n'] && !isSpace (peek r) && !isSpace (peek rest)
        let between := if !joined then first else if more.isEmpty then [' '] else []
        let next := readLines folded indent fuel more rest
        { next with text := breaks ++ line ++ between ++ next.text }

/-- A block of lines inside a collection whose indentation is `outer`, and what follows it. -/
def readBlock (folded : Bool) (outer : Int) (r : Rest) : Except Failure (List Char × Rest) := do
  let (chomping, increment, r) ← readBlockHeader r
  -- A block is set in by one column at least, even at the outermost level.
  let least := (max (outer + 1) 1).toNat
  let lines :=
    match increment with
    | none =>
      let (breaks, reach, r) := readLeading r
      readLines folded (max least reach) (r.length + 1) breaks r
    | some n =>
      let indent := least + n - 1
      let (breaks, r) := readBlockBreaks indent r
      readLines folded indent (r.length + 1) breaks r
  let ending :=
    match chomping with
    | .strip => []
    | .clip => lines.last
    | .keep => lines.last ++ lines.trailing
  return (lines.text ++ ending, lines.rest)

end Stencil.Yaml
