import Stencil.CommandLine.Render
import Stencil.CommandLine.Show

/-!
# Programs

The program with all commands, and the programs for one command alone. The program with all commands
also tells on the standard error stream what it does, line by line, as far as the configuration or the
arguments ask for it. If the configuration is invalid the lines have a shorter form.

* `Command.run`: a command;
* `Command.runLogged`: a command, with what it tells;
* `Program.run`: a whole program.
-/

namespace Stencil.CommandLine

/-! ## Commands -/

namespace Command

/-- The first word of a command. -/
def domain : Command → String
  | .render _ => "render"
  | .inspect _ => "config"

/-- Whether a command is asked to tell everything. -/
def verbose : Command → Bool
  | .render a => a.verbose
  | .inspect _ => false

/-- The path of the project that a command is for. -/
def root : Command → Option String
  | .render a => a.root
  | .inspect a => a.root

/-- The paths of the files that a command is about. -/
def paths : Command → List FilePath
  | .render a => ([a.template] ++ a.bindings.toList ++ a.output.toList).map FilePath.ofString
  | .inspect _ => []

/-- Whether a command reads the standard input. -/
def readsInput : Command → Bool
  | .render a => a.template == "-"
  | .inspect _ => false

/-- A command. -/
def run (stdin : ByteArray) : Command → Work Ending
  | .render a => a.run stdin
  | .inspect a => a.run

end Command

/-! ## Lines of the log -/

/-- The form of the lines of a log. -/
inductive LineForm
  /-- With the time. -/
  | full (time : String)
  | short
  deriving DecidableEq, Inhabited

/-- A line of a log in a form. -/
def LineForm.line (f : LineForm) (l : LogLine) : String :=
  match f with
  | .full time => time ++ " " ++ LogLine.level ++ " " ++ l.origin.label ++ ": " ++ l.message ++ "\n"
  | .short => LogLine.level ++ ":" ++ l.origin.label ++ ":" ++ l.message ++ "\n"

/-- How a log is told. -/
structure Telling where
  form : LineForm
  /-- The level from which on lines are told. -/
  level : Level
  deriving DecidableEq, Inhabited

/-- What is told of a log. All lines are of the lowest level. -/
def Telling.output (t : Telling) (log : List LogLine) : Output :=
  if t.level = .debug then ⟨"", String.join (log.map t.form.line)⟩ else .empty

/-- How the log of a command is told. -/
def Command.telling (time : String) (c : Command) : Work Telling := fun w =>
  -- The configuration is loaded before the command runs, and once more by the
  -- command, which reports an error in it.
  let (w', x) := Workspace.load (some (.ofPlace (w.projectRoot c.root))) true w
  match x.result.bind Settings.level with
  | .ok level => (w', pure ⟨.full time, level.shown c.verbose⟩)
  | .error (.error _) => (w', pure ⟨.short, Level.warning.shown c.verbose⟩)
  | .error f => (w', Logged.fail f)

/-- A command, with what it tells, where the lines about commands come from `origin`. -/
def Command.runLogged (time : String) (origin : Origin) (stdin : ByteArray) (c : Command) :
    Work Ending := fun w =>
  let (w', x) := c.telling time w
  match x.result with
  | .error f => (w', Logged.fail f)
  | .ok telling =>
    let (w'', y) := c.run stdin w'
    match y.result with
    | .error f => (w'', Logged.fail f)
    | .ok e =>
      let log := ⟨origin, "Running command " ++ c.domain⟩ :: y.log
      (w'', pure { e with output := telling.output log ++ e.output })

/-! ## Programs -/

/-- The programs. -/
inductive Program
  /-- All commands, called from another program. -/
  | called
  /-- All commands. -/
  | main
  /-- The command that fills in templates. -/
  | render
  /-- The command that shows the configuration. -/
  | inspect
  deriving DecidableEq, Inhabited

/-- How a program ends. -/
inductive Outcome
  | ended (e : Ending)
  /-- With the help page of a program or of a command of it. -/
  | help (program : String)
  /-- Without having understood the command line. -/
  | misuse
  deriving DecidableEq, Inhabited

namespace Program

/-- What a command line asks a program for. -/
def invocation (p : Program) (words : List String) : Invocation :=
  match p with
  | .called => .ofWords words
  | .main => .ofWords words
  | .render => .ofRenderWords "render" words
  | .inspect => .ofShowWords "show" words

/-- A command as a program runs it. The programs for one command tell nothing. -/
def runCommand (p : Program) (time : String) (stdin : ByteArray) (c : Command) : Work Ending :=
  match p with
  | .called => c.runLogged time .commandLine stdin
  | .main => c.runLogged time .program stdin
  | .render => c.run stdin
  | .inspect => c.run stdin

/-- A program with a command line and a standard input. -/
def run (p : Program) (time : String) (words : List String) (stdin : ByteArray) : Work Outcome :=
  match p.invocation words with
  | .run c => .ended <$> p.runCommand time stdin c
  | .version => return .ended (.done (.line (programName ++ " " ++ version)))
  | .help program _ => return .help program
  | .misuse => return .misuse

end Program

end Stencil.CommandLine
