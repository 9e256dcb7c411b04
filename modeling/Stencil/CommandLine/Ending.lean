import Stencil.CommandLine.Output
import Stencil.Workspace

/-!
# Endings

How a command ends: with a code, zero if all went well, and with what it has written. A failure that is
reported is written in the mode of the command; any other failure ends the program without a code.

* `Ending.ofReport`: the end of a command that reports a failure;
* `Ending.recover`: a command that reports the failures of another one.
-/

namespace Stencil.CommandLine

/-- The end of a command. -/
structure Ending where
  code : Nat
  output : Output
  deriving DecidableEq, Inhabited

namespace Ending

/-- The end of a command that has done its work. -/
def done (o : Output) : Ending := ⟨0, o⟩

/-- The end of a command that reports a failure under a code. -/
def ofFailure (m : Output.Mode) (f : Output.Failure) (code : String) : Except Breach Ending :=
  (m.failure f "" code).map fun o => ⟨1, o⟩

/-- The code under which a refused access to a file is reported. -/
def fileCode : String := "io_error"

/-- The report of a refused access to a file. -/
def ofFileError (m : Output.Mode) (e : FileError) : Except Breach Ending :=
  ofFailure m ⟨e.message, none⟩ fileCode

/-- A computation, or what `report` makes of its failure. -/
def recover (report : Fault → Except Fault Ending) (x : Work Ending) : Work Ending := fun w =>
  let (w', l) := x w
  match l.result with
  | .ok e => (w', ⟨l.log, .ok e⟩)
  | .error f => (w', ⟨l.log, report f⟩)

end Ending

end Stencil.CommandLine
