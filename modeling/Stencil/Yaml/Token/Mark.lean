import Stencil.Number.Numeral
import Stencil.Yaml.Spot
import Stencil.Yaml.Token

/-!
# Directives, anchors and tags

The tokens of a YAML document that say something about its nodes and are no nodes themselves.

* `readDirective`: a directive, up to the end of its line;
* `readName`: the name of an anchor or an alias;
* `readTag`: a tag.
-/

namespace Stencil.Yaml

/-! ## Tags -/

/-- Whether a character may stand in a tag. -/
def isTagChar (c : Char) : Bool := c.isAlphanum || "-;/?:@&=+$,_.!~*'()[]%".toList.contains c

/-- The bytes that are escaped in front, a percent sign and two digits in base sixteen each. -/
def readBytes : (fuel : Nat) → Rest → Except Failure (List UInt8 × Rest)
  | 0, _ => reject .badTag
  | fuel + 1, r =>
    if peek r = '%' then
      match Numeral.inBase? 16 [peekAt 1 r, peekAt 2 r] with
      | some n => (readBytes fuel (r.drop 3)).map fun p => (n.toUInt8 :: p.1, p.2)
      | none => reject .badTag
    else .ok ([], r)

/-- The characters of a tag. -/
def readTagChars : (fuel : Nat) → Rest → Except Failure (List Char × Rest)
  | 0, _ => reject .badTag
  | fuel + 1, r =>
    match r with
    | [] => .ok ([], [])
    | s :: rest =>
      if s.char = '%' then do
        let (bytes, rest) ← readBytes (r.length + 1) r
        match String.fromUTF8? ⟨bytes.toArray⟩ with
        | some t => (readTagChars fuel rest).map fun p => (t.toList ++ p.1, p.2)
        | none => reject .badTag
      else if isTagChar s.char then
        (readTagChars fuel rest).map fun p => (s.char :: p.1, p.2)
      else .ok ([], r)

/-- A tag, or a part of one, which must not be empty. -/
def readTagText (r : Rest) : Except Failure (String × Rest) := do
  if isTagChar (peek r) then
    let (cs, r) ← readTagChars (r.length + 1) r
    return (String.ofList cs, r)
  else reject .badTag

/-- The handle of a tag: an exclamation mark, or a name between two of them. -/
def readHandle (r : Rest) : Except Failure (String × Rest) :=
  if peek r ≠ '!' then reject .badTag
  else if peekAt 1 r = ' ' then .ok ("!", r.drop 1)
  else
    let (name, rest) := takeChars isNameChar (r.drop 1)
    if peek rest = '!' then .ok ("!" ++ String.ofList name ++ "!", rest.drop 1)
    else reject .badTag

/-- Whether a tag has a handle of more than one exclamation mark. -/
def hasLongHandle (r : Rest) : Bool :=
  peek (skipChars (fun c => c != '!' && !isSpaceOrEnd c) (r.drop 1)) == '!'

/-- A tag, from its exclamation mark. -/
def readTag (r : Rest) : Except Failure (WrittenTag × Rest) := do
  let (tag, r) ←
    if peekAt 1 r = '<' then do
      let (name, r) ← readTagText (r.drop 2)
      if peek r = '>' then pure (WrittenTag.verbatim name, r.drop 1) else reject .badTag
    else if isGap (peekAt 1 r) then pure (WrittenTag.verbatim "!", r.drop 1)
    else do
      let (handle, r) ← if hasLongHandle r then readHandle r else pure ("!", r.drop 1)
      let (ending, r) ← readTagText r
      pure (WrittenTag.short handle ending, r)
  if isSpaceOrEnd (peek r) then return (tag, r) else reject .badTag

/-! ## Anchors and aliases -/

/-- The name of an anchor or an alias, from its indicator. -/
def readName (r : Rest) : Except Failure (String × Rest) :=
  let (name, r) := takeChars isNameChar (r.drop 1)
  if name.isEmpty then reject .badAnchor
  else if isGap (peek r) || "?:,]\x7d%@`".toList.contains (peek r) then
    .ok (String.ofList name, r)
  else reject .badAnchor

/-! ## Directives -/

/-- A number in a directive. -/
def readVersionNumber (r : Rest) : Except Failure (Nat × Rest) :=
  let (ds, r) := takeChars Char.isDigit r
  if Numeral.maxDigits < ds.length then violate .longInteger
  else
    match Numeral.digits? ds with
    | some n => .ok (n, r)
    | none => reject .badDirective

/-- The version in a directive. -/
def readVersion (r : Rest) : Except Failure (Directive × Rest) := do
  let (major, r) ← readVersionNumber (skipSpaces r)
  if peek r ≠ '.' then reject .badDirective
  let (minor, r) ← readVersionNumber (r.drop 1)
  if isSpaceOrEnd (peek r) then return (.version major minor, r) else reject .badDirective

/-- A handle and what it stands for, in a directive. -/
def readHandleDirective (r : Rest) : Except Failure (Directive × Rest) := do
  let (handle, r) ← readHandle (skipSpaces r)
  if peek r ≠ ' ' then reject .badDirective
  let (beginning, r) ← readTagText (skipSpaces r)
  if isSpaceOrEnd (peek r) then return (.handle handle beginning, r) else reject .badDirective

/-- What follows the end of a line that holds nothing more but a comment. -/
def finishLine (flaw : Flaw) (r : Rest) : Except Failure Rest :=
  let r := skipComment (skipSpaces r)
  if isLineEnd (peek r) then .ok (takeBreak r).2 else reject flaw

/-- A directive, from its percent sign. -/
def readDirective (r : Rest) : Except Failure (Directive × Rest) := do
  let (name, r) := takeChars isNameChar (r.drop 1)
  if name.isEmpty || !isSpaceOrEnd (peek r) then reject .badDirective
  let (directive, r) ←
    if name = "YAML".toList then readVersion r
    else if name = "TAG".toList then readHandleDirective r
    else pure (Directive.reserved, skipChars (fun c => !isLineEnd c) r)
  let r ← finishLine .badDirective r
  return (directive, r)

end Stencil.Yaml
