import Stencil.Yaml.Tag
import Stencil.Yaml.Token

/-!
# Nodes

The tree that a YAML document describes: scalars as texts, sequences and mappings, each with its tag.
An alias stands for a copy of the node that its anchor names; inside of that node it stands for an
empty collection.

* `Node.ofTokens`: the node that a list of tokens describes, if there is any.
-/

namespace Stencil.Yaml

/-- A node. -/
inductive Node
  | scalar (tag : Tag) (text : CodeText)
  | sequence (tag : Tag) (items : List Node)
  | mapping (tag : Tag) (entries : List (Node × Node))
  deriving Inhabited

namespace Node

/-- The node that stands where nothing is written. -/
def absent : Node := .scalar .null (.whole "")

/-! ## Reading tokens -/

/-- What is left to read, and the nodes that are named so far, the newest one first. -/
structure Pending where
  tokens : List Token
  anchors : List (String × Node)

/-- A computation on what is left to read. -/
abbrev Reading := StateT Pending (Except Failure)

namespace Reading

/-- The next token, which must not be broken. -/
def head : Reading Token := do
  match (← get).tokens with
  | .broken f :: _ => throw f
  | t :: _ => return t
  | [] => return .streamEnd

/-- The next token is passed over. -/
def skip : Reading Unit := modify fun p => { p with tokens := p.tokens.drop 1 }

/-- Something is wrong with the next token. -/
def fail {α : Type} (f : Flaw) : Reading α := throw (.flaw f)

/-- The node that an alias stands for. -/
def named (name : String) : Reading Node := do
  match (← get).anchors.lookup name with
  | some n => return n
  | none => fail (.unknownAlias name)

/-- A name must not be given twice. -/
def fresh (name : Option String) : Reading Unit := do
  if let some name := name then
    if ((← get).anchors.lookup name).isSome then fail (.repeatedAnchor name)

/-- A node is given a name. -/
def register (name : Option String) (n : Node) : Reading Unit :=
  match name with
  | some name => modify fun p => { p with anchors := (name, n) :: p.anchors }
  | none => pure ()

/-- The anchor and the tag in front of a node, in any order. -/
def properties : Reading (Option String × Option WrittenTag) := do
  match ← head with
  | .anchor a =>
    skip
    match ← head with
    | .tag t => do
      skip
      return (some a, some t)
    | _ => return (some a, none)
  | .tag t =>
    skip
    match ← head with
    | .anchor a => do
      skip
      return (some a, some t)
    | _ => return (none, some t)
  | _ => return (none, none)

/-- The name of a tag. The tag `!` is the same as none, except that a quoted scalar counts as plain
    under it. -/
def tagName (handles : List (String × String)) : WrittenTag → Reading String
  | .verbatim name => return name
  | .short handle ending =>
    match handles.lookup handle with
    | some beginning => return beginning ++ ending
    | none => fail (.unknownHandle handle)

/-- Whether a token ends an item of a block sequence that has the indentation of its mapping. -/
def endsItem (t : Token) : Bool := t == .item || t == .key || t == .value || t == .blockEnd

/-- Whether a token ends a part of an entry of a block mapping. -/
def endsPart (t : Token) : Bool := t == .key || t == .value || t == .blockEnd

end Reading

open Reading

/-- The tag of a collection. -/
def collectionTag (usual : Tag) : Option String → Tag
  | none => usual
  | some name => if name = "!" then usual else .ofName name

/-- The tag of a scalar. No surrogate stands in a text that gets another one than that of texts. -/
def scalarTag (text : CodeText) (plain : Bool) : Option String → Tag
  | none => if plain then .ofPlain text.shown else .str
  | some name => if name = "!" then .ofPlain text.shown else .ofName name

/-- A scalar with an anchor. -/
def namedScalar (anchor : Option String) (n : Node) : Reading Node := do
  fresh anchor
  register anchor n
  return n

mutual

/-- A node. In a block it may be a block collection, and where a mapping allows it a sequence with
    the indentation of the mapping. -/
def readNode (handles : List (String × String)) (block indentless : Bool) :
    (fuel : Nat) → Reading Node
  | 0 => fail .noContent
  | fuel + 1 => do
    if let .alias name ← head then
      skip
      return ← named name
    let (anchor, written) ← properties
    let tag ← written.mapM (tagName handles)
    -- A collection gets its name before its parts are read, and gets it again
    -- when they are known.
    let sequence (read : Reading (List Node)) : Reading Node := do
      let tag := collectionTag .seq tag
      fresh anchor
      register anchor (.sequence tag [])
      let n := Node.sequence tag (← read)
      register anchor n
      return n
    let mapping (read : Reading (List (Node × Node))) : Reading Node := do
      let tag := collectionTag .map tag
      fresh anchor
      register anchor (.mapping tag [])
      let n := Node.mapping tag (← read)
      register anchor n
      return n
    match ← head, block, indentless with
    | .item, _, true => sequence (readIndentless handles fuel)
    | .scalar text plain, _, _ =>
      skip
      namedScalar anchor (.scalar (scalarTag text plain tag) text)
    | .flowSequence, _, _ =>
      skip
      sequence (readFlowItems handles true fuel)
    | .flowMapping, _, _ =>
      skip
      mapping (readFlowEntries handles true fuel)
    | .blockSequence, true, _ =>
      skip
      sequence (readItems handles fuel)
    | .blockMapping, true, _ =>
      skip
      mapping (readEntries handles fuel)
    | _, _, _ =>
      -- An anchor or a tag alone is a node without content.
      if anchor.isSome || tag.isSome then
        namedScalar anchor (.scalar (scalarTag (.whole "") true tag) (.whole ""))
      else fail .noContent

/-- The items of a block sequence, and its end. -/
def readItems (handles : List (String × String)) : (fuel : Nat) → Reading (List Node)
  | 0 => fail .brokenCollection
  | fuel + 1 => do
    match ← head with
    | .item =>
      skip
      let t ← head
      let n ←
        if t == .item || t == .blockEnd then pure absent else readNode handles true false fuel
      return n :: (← readItems handles fuel)
    | .blockEnd =>
      skip
      return []
    | _ => fail .brokenCollection

/-- The items of a block sequence with the indentation of its mapping. -/
def readIndentless (handles : List (String × String)) : (fuel : Nat) → Reading (List Node)
  | 0 => fail .brokenCollection
  | fuel + 1 => do
    match ← head with
    | .item =>
      skip
      let n ← if endsItem (← head) then pure absent else readNode handles true false fuel
      return n :: (← readIndentless handles fuel)
    | _ => return []

/-- The entries of a block mapping, and its end. -/
def readEntries (handles : List (String × String)) : (fuel : Nat) → Reading (List (Node × Node))
  | 0 => fail .brokenCollection
  | fuel + 1 => do
    match ← head with
    | .key =>
      skip
      let k ← if endsPart (← head) then pure absent else readNode handles true true fuel
      let v ←
        if (← head) == .value then do
          skip
          if endsPart (← head) then pure absent else readNode handles true true fuel
        else pure absent
      return (k, v) :: (← readEntries handles fuel)
    | .blockEnd =>
      skip
      return []
    | _ => fail .brokenCollection

/-- A key and its value between brackets that `closing` ends. -/
def readFlowEntry (handles : List (String × String)) (closing : Token) :
    (fuel : Nat) → Reading (Node × Node)
  | 0 => fail .brokenCollection
  | fuel + 1 => do
    let t ← head
    let k ←
      if t == .value || t == .comma || t == closing then pure absent
      else readNode handles false false fuel
    if (← head) == .value then
      skip
      let t ← head
      let v ←
        if t == .comma || t == closing then pure absent else readNode handles false false fuel
      return (k, v)
    else return (k, absent)

/-- The items of a sequence between brackets, and its end. -/
def readFlowItems (handles : List (String × String)) (first : Bool) :
    (fuel : Nat) → Reading (List Node)
  | 0 => fail .brokenCollection
  | fuel + 1 => do
    if !first && (← head) != .flowSequenceEnd then
      if (← head) == .comma then skip else fail .brokenCollection
    match ← head with
    | .flowSequenceEnd =>
      skip
      return []
    | .key =>
      skip
      -- A key among the items of a sequence is a mapping of a single entry.
      let entry ← readFlowEntry handles .flowSequenceEnd fuel
      return .mapping .map [entry] :: (← readFlowItems handles false fuel)
    | _ =>
      let n ← readNode handles false false fuel
      return n :: (← readFlowItems handles false fuel)

/-- The entries of a mapping between brackets, and its end. -/
def readFlowEntries (handles : List (String × String)) (first : Bool) :
    (fuel : Nat) → Reading (List (Node × Node))
  | 0 => fail .brokenCollection
  | fuel + 1 => do
    if !first && (← head) != .flowMappingEnd then
      if (← head) == .comma then skip else fail .brokenCollection
    match ← head with
    | .flowMappingEnd =>
      skip
      return []
    | .key =>
      skip
      let entry ← readFlowEntry handles .flowMappingEnd fuel
      return entry :: (← readFlowEntries handles false fuel)
    | _ =>
      -- A key with a colon has a token in front of it, so this one has no value.
      let k ← readNode handles false false fuel
      return (k, absent) :: (← readFlowEntries handles false fuel)

end

/-! ## Documents -/

/-- The handles of tags that are always defined. -/
def usualHandles : List (String × String) := [("!", "!"), ("!!", Tag.domain)]

/-- The directives in front of a document: whether there was a version, and the handles of tags. -/
def readDirectives (versioned : Bool) (handles : List (String × String)) :
    (fuel : Nat) → Reading (List (String × String))
  | 0 => return handles
  | fuel + 1 => do
    match ← head with
    | .directive (.version major _) =>
      skip
      if versioned then fail .repeatedDirective
      if major ≠ 1 then fail .foreignVersion
      readDirectives true handles fuel
    | .directive (.handle handle beginning) =>
      skip
      if (handles.lookup handle).isSome then fail .repeatedDirective
      readDirectives versioned ((handle, beginning) :: handles) fuel
    | .directive .reserved =>
      skip
      readDirectives versioned handles fuel
    | _ => return handles

/-- Whether a document ends before a token. -/
def endsDocument : Token → Bool
  | .directive _ => true
  | .documentStart => true
  | .documentEnd => true
  | .streamEnd => true
  | _ => false

/-- The node of the first document. -/
def readDocument (fuel : Nat) : Reading (Option Node) := do
  match ← head with
  | .streamEnd => return none
  | .directive _ | .documentStart =>
    let handles ← readDirectives false [] fuel
    if (← head) != .documentStart then fail .noContent
    skip
    if endsDocument (← head) then return some absent
    else return some (← readNode (handles ++ usualHandles) true false fuel)
  | _ => return some (← readNode usualHandles true false fuel)

/-- Nothing but marks for the ends of documents may follow the first document. -/
def readEnd : (fuel : Nat) → Reading Unit
  | 0 => fail .manyDocuments
  | fuel + 1 => do
    match ← head with
    | .documentEnd =>
      skip
      readEnd fuel
    | .streamEnd => return ()
    | _ => fail .manyDocuments

/-- The node that a list of tokens describes, if there is any. -/
def ofTokens (tokens : List Token) : Except Failure (Option Node) :=
  -- Every step takes a token, or is followed by one that does.
  let fuel := 2 * tokens.length + 2
  let whole : Reading (Option Node) := do
    let n ← readDocument fuel
    readEnd fuel
    return n
  (whole.run ⟨tokens, []⟩).map (·.1)

end Node

end Stencil.Yaml
