import Stencil.Error.Basic

/-!
# Logs

What a computation tells about its course, besides its result. A log is a list of lines, oldest
first, each from one part of the library. A computation that fails keeps the lines it wrote before.

* `Logged`: a computation with a log that may fail;
* `Logged.log_bind_ok`, `Logged.log_bind_error`: the log of two computations in a row;
* `Logged.result_foldlM`: the result of any number of computations in a row.
-/

namespace Stencil

/-- The parts of the library that write logs. -/
inductive Origin
  | scanner
  | configuration
  /-- The command line, called from another program. -/
  | commandLine
  /-- The command line as a program of its own. -/
  | program
  deriving DecidableEq, Inhabited

/-- The name of a part in logs. -/
def Origin.label : Origin → String
  | .scanner => "textparser.core.scanner"
  | .configuration => "textparser.core.config.manager"
  | .commandLine => "textparser.cli._dispatcher"
  | .program => "__main__"

/-- A line of a log. All lines are of the lowest level. -/
structure LogLine where
  origin : Origin
  message : String
  deriving DecidableEq, Inhabited

/-- The word for the level of all lines. -/
def LogLine.level : String := "DEBUG"

/-- A computation with a log that may fail. -/
structure Logged (α : Type) where
  log : List LogLine
  result : Except Fault α

namespace Logged

instance : Monad Logged where
  pure a := ⟨[], .ok a⟩
  bind x f :=
    match x.result with
    | .ok a => ⟨x.log ++ (f a).log, (f a).result⟩
    | .error e => ⟨x.log, .error e⟩

/-- A computation that writes one line. -/
def write (origin : Origin) (message : String) : Logged Unit := ⟨[⟨origin, message⟩], .ok ()⟩

/-- A computation that writes nothing. -/
def ofExcept {α : Type} (x : Except Fault α) : Logged α := ⟨[], x⟩

/-- A computation that fails. -/
def fail {α : Type} (e : Fault) : Logged α := ⟨[], .error e⟩

theorem log_bind_ok {α β : Type} {x : Logged α} {a : α} (h : x.result = .ok a) (f : α → Logged β) :
    (x >>= f).log = x.log ++ (f a).log ∧ (x >>= f).result = (f a).result := by
  simp [bind, h]

theorem log_bind_error {α β : Type} {x : Logged α} {e : Fault} (h : x.result = .error e)
    (f : α → Logged β) : (x >>= f).log = x.log ∧ (x >>= f).result = .error e := by
  simp [bind, h]

/-- The result of computations in a row is that of their results in a row. -/
theorem result_bind {α β : Type} (x : Logged α) (f : α → Logged β) :
    (x >>= f).result = x.result >>= fun a => (f a).result := by
  cases h : x.result with
  | error e => exact (log_bind_error h f).2
  | ok a => exact (log_bind_ok h f).2

theorem result_foldlM {α β : Type} (f : β → α → Logged β) (xs : List α) (b : β) :
    (xs.foldlM f b).result = xs.foldlM (fun b a => (f b a).result) b := by
  induction xs generalizing b with
  | nil => rfl
  | cons x xs ih =>
    rw [List.foldlM_cons, List.foldlM_cons, result_bind]
    exact congrArg _ (funext ih)

end Logged

end Stencil
