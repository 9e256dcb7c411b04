import Stencil.CommandLine.Switch

/-!
# Arguments

What the words of a command line ask for. There are two commands: one fills in a template, the other
one shows the configuration. A help page can be asked for at every level, and it is given unless
something that cannot be read stands before it.

* `Arguments.read`: the arguments of a command;
* `Invocation.ofWords`: what a whole command line asks for.
-/

namespace Stencil.CommandLine

/-- The name of the program. -/
def programName : String := "textparser"

/-- The version of the program. -/
def version : String := "1.0.0"

/-! ## Arguments of a command -/

/-- What the words behind a command ask for. -/
inductive Arguments (α : Type)
  /-- The arguments, and whether there are words that mean nothing. -/
  | given (a : α) (stray : Bool)
  | help
  /-- Something that cannot be read. -/
  | misuse
  deriving DecidableEq, Inhabited

/-- The option that asks for a help page. -/
def helpSwitch : Switch := ⟨["-h", "--help"], false⟩

/-- How the arguments of a command are read. -/
structure Reader (α : Type) where
  /-- The options besides the one for help. -/
  switches : List Switch
  /-- The arguments when nothing is said. -/
  start : α
  /-- The arguments with an option, by one of its names, unless its value is none of those allowed. -/
  setOption : α → (name value : String) → Option α
  /-- The arguments with the only word that gives no option. -/
  setWord : α → String → α

namespace Arguments

variable {α : Type}

/-- The same arguments with words that mean nothing. -/
def markStray : Arguments α → Arguments α
  | .given a _ => .given a true
  | x => x

/-- The arguments behind the border, where only the first word can mean something. -/
def ofBorder (r : Reader α) (free : Bool) (a : α) : List String → Arguments α
  | [] => .given a false
  | w :: ws => if free then .given (r.setWord a w) !ws.isEmpty else .given a true

/-- The arguments that parts of a command line give, `free` if there was no plain word before. -/
def ofParts (r : Reader α) (free : Bool) (a : α) : List Part → Arguments α
  | [] => .given a false
  | .misuse :: _ => .misuse
  | .unknown :: ps => markStray (ofParts r free a ps)
  | .option name value :: ps =>
    if helpSwitch.names.contains name then .help
    else
      match r.setOption a name (value.getD "") with
      | some a => ofParts r free a ps
      | none => .misuse
  | .border ws :: _ => if free then ofBorder r true a ws else .given a true
  -- The border may also stand behind the plain word, with nothing between them.
  | .plain w _ :: .border ws :: ps =>
    if free then ofBorder r false (r.setWord a w) ws else markStray (ofParts r free a (.border ws :: ps))
  | .plain w _ :: ps =>
    if free then ofParts r false (r.setWord a w) ps else markStray (ofParts r free a ps)

/-- The arguments of a command. -/
def read (r : Reader α) (words : List String) : Arguments α :=
  ofParts r true r.start (Part.ofTexts (helpSwitch :: r.switches) words)

end Arguments

/-! ## The two commands -/

/-- The arguments of the command that fills in a template. -/
structure RenderArguments where
  /-- The path of the template, a dash for the standard input. -/
  template : String := "-"
  /-- The assignments. -/
  assignments : List String := []
  /-- The path of a file of bindings. -/
  bindings : Option String := none
  /-- The path of the file that is written. -/
  output : Option String := none
  start : Option String := none
  stop : Option String := none
  /-- Whether nested start markers are refused. -/
  strict : Option Bool := none
  json : Bool := false
  root : Option String := none
  verbose : Bool := false
  deriving DecidableEq, Inhabited

/-- The forms in which the configuration is shown. -/
inductive ShowFormat
  | json
  | yaml
  | table
  deriving DecidableEq, Inhabited

/-- The form of a name. -/
def ShowFormat.ofName? (name : String) : Option ShowFormat :=
  [("json", json), ("yaml", yaml), ("table", table)].lookup name

/-- The arguments of the command that shows the configuration. -/
structure ShowArguments where
  /-- The dotted name of what is shown. -/
  key : Option String := none
  format : ShowFormat := .table
  json : Bool := false
  root : Option String := none
  deriving DecidableEq, Inhabited

namespace RenderArguments

/-- The arguments with one more option. -/
def setOption (a : RenderArguments) (name value : String) : Option RenderArguments :=
  match name with
  | "--var" => some { a with assignments := a.assignments ++ [value] }
  | "--vars-file" => some { a with bindings := some value }
  | "--output" | "-o" => some { a with output := some value }
  | "--start" => some { a with start := some value }
  | "--end" => some { a with stop := some value }
  | "--strict" => some { a with strict := some true }
  | "--no-strict" => some { a with strict := some false }
  | "--json" => some { a with json := true }
  | "--repo-root" => some { a with root := some value }
  | "--verbose" | "-v" => some { a with verbose := true }
  | _ => none

/-- How the arguments are read. -/
def reader : Reader RenderArguments where
  switches :=
    [⟨["--var"], true⟩, ⟨["--vars-file"], true⟩, ⟨["--output", "-o"], true⟩, ⟨["--start"], true⟩,
      ⟨["--end"], true⟩, ⟨["--strict", "--no-strict"], false⟩, ⟨["--json"], false⟩,
      ⟨["--repo-root"], true⟩, ⟨["--verbose", "-v"], false⟩]
  start := {}
  setOption := setOption
  setWord a w := { a with template := w }

end RenderArguments

namespace ShowArguments

/-- The arguments with one more option. -/
def setOption (a : ShowArguments) (name value : String) : Option ShowArguments :=
  match name with
  | "--format" => (ShowFormat.ofName? value).map fun format => { a with format }
  | "--json" => some { a with json := true }
  | "--repo-root" => some { a with root := some value }
  | _ => none

/-- How the arguments are read. -/
def reader : Reader ShowArguments where
  switches := [⟨["--format"], true⟩, ⟨["--json"], false⟩, ⟨["--repo-root"], true⟩]
  start := {}
  setOption := setOption
  setWord a w := { a with key := some w }

end ShowArguments

/-! ## Command lines -/

/-- A command with its arguments. -/
inductive Command
  | render (a : RenderArguments)
  | inspect (a : ShowArguments)
  deriving DecidableEq, Inhabited

/-- What a command line asks for. -/
inductive Invocation
  | run (c : Command)
  /-- The help page of a program or of a command of it, which is also shown where a command is missing. -/
  | help (program : String) (asked : Bool)
  | version
  /-- Something that cannot be read. -/
  | misuse
  deriving DecidableEq, Inhabited

namespace Invocation

/-- What is asked for if there are words that mean nothing: a help page, if it is asked for, all the
    same, or else nothing that could be done. -/
def markStray : Invocation → Invocation
  | .run _ => .misuse
  | .help _ false => .misuse
  | x => x

/-- What the arguments of a command ask for. -/
def ofArguments {α : Type} (program : String) (command : α → Command) : Arguments α → Invocation
  | .given a false => .run (command a)
  | .given _ true => .misuse
  | .help => .help program true
  | .misuse => .misuse

/-- What the words behind a program that only fills in templates ask for. -/
def ofRenderWords (program : String) (words : List String) : Invocation :=
  ofArguments program .render (Arguments.read RenderArguments.reader words)

/-- What the words behind a program that only shows the configuration ask for. -/
def ofShowWords (program : String) (words : List String) : Invocation :=
  ofArguments program .inspect (Arguments.read ShowArguments.reader words)

/-- The option that asks for the version. -/
def versionSwitch : Switch := ⟨["--version"], false⟩

/-- What the parts of a command line with commands ask for. Without a command it is a help page, unless
    there are `stray` words that mean nothing. -/
def ofParts (program : String) (stray : Bool) (command : String → List String → Invocation) :
    List Part → Invocation
  | [] => if stray then .misuse else .help program false
  | .misuse :: _ => .misuse
  | .unknown :: ps => ofParts program true command ps
  | .border _ :: _ => .misuse
  | .option name _ :: ps =>
    if helpSwitch.names.contains name then .help program true
    else if versionSwitch.names.contains name then .version
    else ofParts program stray command ps
  | .plain name words :: _ =>
    let x := command name words
    if stray then x.markStray else x

/-- What the words behind the name of a group of commands ask for. -/
def ofConfigWords (program : String) (words : List String) : Invocation :=
  ofParts program false
    (fun name words => if name = "show" then ofShowWords (program ++ " show") words else .misuse)
    (Part.ofTexts [helpSwitch] words)

/-- What a whole command line asks for. -/
def ofWords (words : List String) : Invocation :=
  ofParts programName false
    (fun name words =>
      if name = "render" then ofRenderWords (programName ++ " render") words
      else if name = "config" then ofConfigWords (programName ++ " config") words
      else .misuse)
    (Part.ofTexts [helpSwitch, versionSwitch] words)

end Invocation

end Stencil.CommandLine
