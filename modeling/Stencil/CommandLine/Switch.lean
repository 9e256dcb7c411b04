import Stencil.Text.Digit

/-!
# Words of a command line

A command line is a list of words. A word that begins with a dash can give an option: `--name`,
`--name=value`, a beginning of a long name that only one option has, or several options of one letter
behind one dash, the last of which may be followed by its value. A value may also be the next word. The
word `--` is a border: no word behind it gives an option.

* `Switch`: an option, by its names;
* `Word.ofText`: what a word can be;
* `Part.ofTexts`: the options and the other words, in order.
-/

namespace Stencil.CommandLine

/-- An option. -/
structure Switch where
  /-- Its names, with their dashes. -/
  names : List String
  takesValue : Bool
  deriving DecidableEq, Inhabited

/-- An option by one of its names. -/
structure Named where
  switch : Switch
  name : String
  deriving DecidableEq, Inhabited

namespace Switch

/-- All options of a list, by all their names. -/
def allNamed (switches : List Switch) : List Named :=
  switches.flatMap fun s => s.names.map fun name => ⟨s, name⟩

/-- The option of a name. -/
def find? (switches : List Switch) (name : String) : Option Named :=
  (allNamed switches).find? (·.name == name)

/-- The options that have a name with a given beginning. -/
def startingWith (switches : List Switch) (start : List Char) : List Named :=
  (allNamed switches).filter fun n => start.isPrefixOf n.name.toList

end Switch

/-! ## Words -/

/-- A value that is attached to the name of an option, and whether an equals sign is between them. -/
structure Attached where
  text : List Char
  marked : Bool
  deriving DecidableEq, Inhabited

/-- What a word in front of the border can be. -/
inductive Word
  /-- A word that gives no option. -/
  | plain
  /-- An option, with what is attached to its name. -/
  | option (n : Named) (attached : Option Attached)
  /-- An option that does not exist. -/
  | unknown
  /-- The beginning of the names of several options. -/
  | ambiguous
  deriving DecidableEq, Inhabited

namespace Word

/-- A text cut at its first equals sign. -/
def splitEquals (cs : List Char) : List Char × Option (List Char) :=
  match cs.span (· != '=') with
  | (name, _ :: value) => (name, some value)
  | (name, []) => (name, none)

/-- Whether a text is written like a negative number, maybe with a line break at its end. -/
def isNegative (cs : List Char) : Bool :=
  match cs with
  | '-' :: r =>
    let r := if r.getLast? = some '\n' then r.dropLast else r
    match r.span (· != '.') with
    | (ds, []) => !ds.isEmpty && ds.all Text.isDigit
    | (ds, _ :: fraction) => ds.all Text.isDigit && !fraction.isEmpty && fraction.all Text.isDigit
  | _ => false

/-- What a word can be if no option has its name. -/
def withoutName (cs : List Char) : Word :=
  if isNegative cs || cs.contains ' ' then .plain else .unknown

/-- What a word can be, by the beginning of its name. -/
def byBeginning (switches : List Switch) (cs : List Char) : Word :=
  match cs with
  | '-' :: '-' :: _ =>
    let (start, value) := splitEquals cs
    match Switch.startingWith switches start with
    | [] => withoutName cs
    | [n] => .option n (value.map (⟨·, true⟩))
    | _ => .ambiguous
  | '-' :: letter :: value =>
    match Switch.find? switches (String.ofList ['-', letter]) with
    | some n => .option n (some ⟨value, false⟩)
    | none => withoutName cs
  | _ => .plain

/-- What a word can be. -/
def ofText (switches : List Switch) (text : String) : Word :=
  let cs := text.toList
  if cs.head? ≠ some '-' then .plain
  else
    -- A whole name comes first, then a whole name in front of an equals sign,
    -- then the beginnings of names.
    match Switch.find? switches text, cs, splitEquals cs with
    | some n, _, _ => .option n none
    | none, [_], _ => .plain
    | none, _, (name, some value) =>
      match Switch.find? switches (String.ofList name) with
      | some n => .option n (some ⟨value, true⟩)
      | none => byBeginning switches cs
    | none, _, (_, none) => byBeginning switches cs

end Word

/-! ## Parts -/

/-- A part of a command line. -/
inductive Part
  /-- An option by one of its names, with its value if it takes one. -/
  | option (name : String) (value : Option String)
  /-- A word that gives no option, and the words behind it. -/
  | plain (text : String) (rest : List String)
  /-- The border, and the words behind it. -/
  | border (rest : List String)
  /-- An option that does not exist. -/
  | unknown
  /-- Something that cannot be read, after which nothing is. -/
  | misuse
  deriving DecidableEq, Inhabited

/-- What an option and the text that is attached to its name give. -/
inductive Cluster
  /-- Some parts. -/
  | closed (parts : List Part)
  /-- Some parts, and an option whose value, if it takes one, is still to come. -/
  | open (parts : List Part) (last : Named)
  /-- Something that cannot be read. -/
  | misuse
  deriving DecidableEq, Inhabited

namespace Cluster

/-- One more part in front. -/
def push (p : Part) : Cluster → Cluster
  | .closed parts => .closed (p :: parts)
  | .open parts last => .open (p :: parts) last
  | .misuse => .misuse

/-- Whether a name is one letter behind one dash. -/
def isShort (name : String) : Bool := name.toList[1]? != some '-'

/-- What an option and the text that is attached to its name give: its value or, behind the letter of an
    option without a value, the letter of the next one. -/
def ofAttached (switches : List Switch) (n : Named) (marked : Bool) : List Char → Cluster
  | [] => if n.switch.takesValue then .closed [.option n.name (some "")] else .misuse
  | c :: r =>
    if n.switch.takesValue then .closed [.option n.name (some (String.ofList (c :: r)))]
    -- An option without a value cannot be followed by a text, unless the text
    -- gives more options of one letter.
    else if marked || c = '-' || !isShort n.name then .misuse
    else
      match Switch.find? switches (String.ofList ['-', c]) with
      | none => .closed [.option n.name none, .unknown]
      | some m =>
        push (.option n.name none) <|
          match r with
          | [] => .open [] m
          | '=' :: r => ofAttached switches m true r
          | d :: r => ofAttached switches m false (d :: r)

/-- What an option and what is attached to its name, if anything, give. -/
def ofOption (switches : List Switch) (n : Named) : Option Attached → Cluster
  | none => .open [] n
  | some a => ofAttached switches n a.marked a.text

end Cluster

namespace Part

/-- The parts that the words in front of the border and those behind it give. Before them there may be
    parts that wait for the value of an option, which has to be a plain word. -/
def ofWords (switches : List Switch) (waiting : Option (List Part × Named)) (behind : List String) :
    List (String × Word) → List Part
  | [] =>
    match waiting with
    | some _ => [.misuse]
    | none =>
      match behind with
      | [] => []
      | _ :: rest => [.border rest]
  | (text, w) :: ws =>
    match waiting, w with
    | some (parts, n), .plain =>
      parts ++ .option n.name (some text) :: ofWords switches none behind ws
    | some _, _ => [.misuse]
    | none, .plain => .plain text (ws.map (·.1) ++ behind) :: ofWords switches none behind ws
    | none, .unknown => .unknown :: ofWords switches none behind ws
    | none, .ambiguous => [.misuse]
    | none, .option n attached =>
      match Cluster.ofOption switches n attached with
      | .closed parts => parts ++ ofWords switches none behind ws
      | .open parts last =>
        if last.switch.takesValue then ofWords switches (some (parts, last)) behind ws
        else parts ++ .option last.name none :: ofWords switches none behind ws
      | .misuse => [.misuse]

/-- The parts of a command line. An ambiguous word spoils all of it. -/
def ofTexts (switches : List Switch) (texts : List String) : List Part :=
  let (front, behind) := texts.span (· != "--")
  let words := front.map fun t => (t, Word.ofText switches t)
  if words.any (·.2 == .ambiguous) then [.misuse] else ofWords switches none behind words

end Part

end Stencil.CommandLine
