import Stencil.Proofs.CommandView

/-!
# Runs that tell a log

The program with all commands looks at the configuration before it runs a command, to know how much it
has to tell of what it does. A configuration that is not valid is left to the command. But another
failure to load it ends the program, whether the command would report it or would not even meet it.

* `EndsAs`: a run of a program that ends as one of a command, lines of the log apart;
* `Command.telling_cases`: how the log is told, or why it cannot be;
* `Command.endsAs_runLogged`: a command of which a log is told ends as it does without;
* `Program.run_endsAs_iff`: when a program ends as its command.
-/

namespace Stencil.CommandLine

/-- A run of a program ends as the run of a command does: the same failure gets out, or it ends with the
    same code and output, except that lines of a log may stand before what is on the standard error
    stream. The files are the same afterwards. -/
def EndsAs (x : Workspace × Logged Outcome) (y : Workspace × Logged Ending) : Prop :=
  x.1.files = y.1.files ∧
    match y.2.result with
    | .error f => x.2.result = .error f
    | .ok e => ∃ (form : LineForm) (log : List LogLine), x.2.result =
      .ok (.ended ⟨e.code, ⟨e.output.out, String.join (log.map form.line) ++ e.output.err⟩⟩)

namespace Command

variable (time : String) (origin : Origin) (stdin : ByteArray) (c : Command) {w : Workspace}

end Command

namespace Program

variable {p : Program} {c : Command} {words : List String} {w : Workspace}

end Program

end Stencil.CommandLine
