import Stencil.CommandLine.Program
import Stencil.Proofs.FailedRender
import Stencil.Proofs.ValidConfig

/-!
# What a command sees

A command may load the configuration of its project several times. What it sees of a workspace stays
the same all along: what loading comes to, the files, and the directory that is worked in. How it ends
and what it leaves in the files is told from that alone.

* `Workspace.load_load`: loading once more gives the same, and changes nothing;
* `Work.LooksAt`: a computation whose result is told from what is seen;
* `RenderArguments.looksAt_rendered`: filling in a template is one;
* `Command.outcome_run`: how a command ends, told from what it sees.
-/

namespace Stencil

/-! ## Loading once more -/

namespace Workspace

variable (w : Workspace)

/-- Loading once more gives the same, and changes nothing. -/
theorem load_load (root : Option FilePath) (validated : Bool) :
    (load root validated (load root validated w).1).1 = (load root validated w).1 ∧
      (load root validated (load root validated w).1).2.result =
        (load root validated w).2.result := by
  cases hfind : w.cache.find? (w.keyOf (w.rootOf root) validated) with
  | some config => simp only [load_of_find? hfind, true_and]
  | none =>
    cases hcompute : (w.compute root validated).result with
    | error f =>
      have hload : load root validated w = (w, w.compute root validated) := by
        simp [load, hfind, hcompute]
      rw [hload]
      exact ⟨congrArg Prod.fst hload, congrArg (·.2.result) hload⟩
    | ok config =>
      have hload : load root validated w =
          ({ w with cache := w.cache.insert (w.keyOf (w.rootOf root) validated) config },
            w.compute root validated) := by
        simp [load, hfind, hcompute]
      -- The key is the same as before, and what was kept is found under it.
      have hfind' : (load root validated w).1.cache.find?
          ((load root validated w).1.keyOf ((load root validated w).1.rootOf root) validated) =
            some config := by
        rw [hload]
        exact (find?_insert _ _ _ _).trans (if_pos rfl)
      rw [load_of_find? hfind', hload]
      exact ⟨rfl, hcompute.symm⟩

end Workspace

/-! ## Views -/

/-- What a command sees of a workspace. -/
structure View where
  /-- What loading the configuration of the project comes to. -/
  config : Except Fault Mapping
  files : Files
  cwd : Place

/-- The failure of the library that loading the configuration comes to, if it does. -/
def View.refusal? (v : View) : Option Error :=
  match v.config with
  | .error (.error e) => some e
  | _ => none

theorem View.exists_of_isSome_refusal? {v : View} (h : v.refusal?.isSome) :
    ∃ e, v.config = .error (.error e) := by
  obtain ⟨e, he⟩ := Option.isSome_iff_exists.1 h
  rw [refusal?] at he
  split at he
  · next e' hv => exact ⟨e', hv⟩
  · cases he

namespace Workspace

variable (w : Workspace) (root : Option String)

/-- The configuration of the project that is asked for by a text. -/
def loadProject (w : Workspace) : Workspace × Logged Mapping :=
  load (some (.ofPlace (w.projectRoot root))) true w

/-- What a command for a project sees. -/
def view : View := ⟨(w.loadProject root).2.result, w.files, w.cwd⟩

theorem loadProject_fst : (w.loadProject root).1 =
    { w with cache := (w.loadProject root).1.cache } := load_fst _ _ _

/-- Loading changes nothing of what is seen, and another time it changes nothing at all. -/
theorem loadProject_loadProject :
    ((w.loadProject root).1.loadProject root).1 = (w.loadProject root).1 ∧
      (w.loadProject root).1.view root = w.view root := by
  have hcwd : (w.loadProject root).1.projectRoot root = w.projectRoot root := by
    rw [loadProject_fst]
    rfl
  have hagain : (w.loadProject root).1.loadProject root =
      load (some (.ofPlace (w.projectRoot root))) true (w.loadProject root).1 := by
    rw [loadProject, hcwd]
  obtain ⟨hfst, hresult⟩ := w.load_load (some (.ofPlace (w.projectRoot root))) true
  refine ⟨?_, ?_⟩
  · rw [hagain]
    exact hfst
  · rw [view, hagain, view, View.mk.injEq]
    refine ⟨hresult, ?_, ?_⟩
    · rw [loadProject_fst]
    · rw [loadProject_fst]

theorem isClean_projectRoot {w : Workspace} (h : w.cwd.IsClean) (root : Option String) :
    (w.projectRoot root).IsClean := by
  unfold projectRoot
  split
  · exact h
  · exact h
  · exact FilePath.isClean_place h _

/-- A command sees no configuration but an accepted one. -/
theorem KeepsValid.accepted_of_view {w : Workspace} (hw : w.KeepsValid) {config : Mapping}
    (h : (w.view root).config = .ok config) : Config.Accepted config := by
  have hclean := isClean_projectRoot hw.cwd root
  have hroot : w.rootOf (some (.ofPlace (w.projectRoot root))) = w.projectRoot root :=
    FilePath.place_ofPlace (fun hup => (hclean _ hup).ne_up rfl) w.cwd
  have hvalid := hw.validate_of_load (hroot.symm ▸ hclean) h
  obtain ⟨m, hm, haccepted⟩ := Config.validate_eq_ok_iff.1 hvalid
  cases hm
  exact haccepted

end Workspace

namespace Work

variable {α β : Type} {root : Option String}

/-- A computation that at most loads the configuration of a project, and whose result `f` tells from
    what is seen. -/
structure LooksAt (root : Option String) (x : Work α) (f : View → Except Fault α) : Prop where
  fst (w : Workspace) : (x w).1 = w ∨ (x w).1 = (w.loadProject root).1
  result (w : Workspace) : (x w).2.result = f (w.view root)

theorem looksAt_ofLogged (x : Logged α) : LooksAt root (ofLogged x) fun _ => x.result :=
  ⟨fun _ => .inl rfl, fun _ => rfl⟩

theorem looksAt_ofExcept (x : Except Fault α) : LooksAt root (ofExcept x) fun _ => x :=
  ⟨fun _ => .inl rfl, fun _ => rfl⟩

theorem looksAt_pure (a : α) : LooksAt root (pure a : Work α) fun _ => .ok a :=
  ⟨fun _ => .inl rfl, fun _ => rfl⟩

namespace LooksAt

variable {x : Work α} {f : View → Except Fault α} (hx : LooksAt root x f)

include hx

/-- Afterwards the same is seen. -/
theorem view_fst (w : Workspace) : (x w).1.view root = w.view root := by
  rcases hx.fst w with h | h
  · rw [h]
  · rw [h, (w.loadProject_loadProject root).2]

/-- Nothing but the cache has changed afterwards. -/
theorem fst_eq (w : Workspace) : (x w).1 = { w with cache := (x w).1.cache } := by
  rcases hx.fst w with h | h
  · rw [h]
  · rw [h]
    exact w.loadProject_fst root

theorem bind {y : α → Work β} {g : α → View → Except Fault β} (hy : ∀ a, LooksAt root (y a) (g a)) :
    LooksAt root (x >>= y) fun v => f v >>= fun a => g a v := by
  refine ⟨fun w => ?_, fun w => ?_⟩
  · cases h : (x w).2.result with
    | error e =>
      rw [(bind_of_error h).1]
      exact hx.fst w
    | ok a =>
      rw [(bind_of_ok h).1]
      rcases hx.fst w with hw | hw
      · rw [hw]
        exact (hy a).fst w
      · rw [hw]
        refine .inr (((hy a).fst _).elim id fun hagain => ?_)
        rw [hagain, (w.loadProject_loadProject root).1]
  · cases h : (x w).2.result with
    | error e =>
      rw [(bind_of_error h).2, ← hx.result w, h]
      rfl
    | ok a =>
      rw [(bind_of_ok h).2, (hy a).result, hx.view_fst, ← hx.result w, h]
      rfl

end LooksAt

/-- A computation may start with a look at the workspace as it is. -/
theorem looksAt_current_bind {y : Workspace → Work β} {g : Workspace → View → Except Fault β}
    {f : View → Except Fault β} (hy : ∀ w, LooksAt root (y w) (g w))
    (hg : ∀ w : Workspace, g w (w.view root) = f (w.view root)) :
    LooksAt root (current >>= y) f := by
  refine ⟨fun w => ?_, fun w => ?_⟩
  · have hcurrent : (current w).2.result = .ok w := rfl
    rw [(bind_of_ok hcurrent).1]
    exact (hy w).fst w
  · have hcurrent : (current w).2.result = .ok w := rfl
    rw [(bind_of_ok hcurrent).2, ← hg]
    exact (hy w).result w

/-- The configuration of the project is loaded, whichever way its place is found. -/
theorem looksAt_load {place : Work FilePath}
    (hplace : ∀ w, place w = (w, pure (.ofPlace (w.projectRoot root)))) :
    LooksAt root (place >>= fun p => Workspace.load (some p) true) (·.config) := by
  refine ⟨fun w => .inr ?_, fun w => ?_⟩
  · have hok : (place w).2.result = .ok (.ofPlace (w.projectRoot root)) := by rw [hplace]; rfl
    rw [(bind_of_ok hok).1, hplace]
    rfl
  · have hok : (place w).2.result = .ok (.ofPlace (w.projectRoot root)) := by rw [hplace]; rfl
    rw [(bind_of_ok hok).2, hplace]
    rfl

/-- The files that a computation leaves, and its result. -/
def outcome (x : Work α) (w : Workspace) : Files × Except Fault α :=
  ((x w).1.files, (x w).2.result)

theorem LooksAt.outcome_eq {x : Work α} {f : View → Except Fault α} (hx : LooksAt root x f)
    (w : Workspace) : x.outcome w = (w.files, f (w.view root)) := by
  rw [outcome, hx.fst_eq, hx.result]

end Work

namespace CommandLine

/-- How a command ends that reports the failures of another one. -/
def Ending.recovered (report : Fault → Except Fault Ending) :
    Except Fault Ending → Except Fault Ending
  | .ok e => .ok e
  | .error f => report f

theorem Ending.outcome_recover (report : Fault → Except Fault Ending) (x : Work Ending)
    (w : Workspace) : (recover report x).outcome w =
      ((x.outcome w).1, recovered report (x.outcome w).2) := by
  simp only [Work.outcome, recover]
  cases (x w).2.result <;> rfl

/-! ## Filling in a template -/

namespace RenderArguments

variable (a : RenderArguments) (stdin : ByteArray)

/-- The markers, told from what is seen. -/
def markersIn (v : View) : Except Fault Markers :=
  match a.start, a.stop with
  | some s, some t => (Markers.ofStrings s t).mapError Fault.error
  | start, stop => do
    let config ← v.config
    let s ← marker start config "start"
    let t ← marker stop config "end"
    (Markers.ofValues s t).mapError Fault.error

/-- The mode, told from what is seen. -/
def isStrictIn (v : View) : Except Fault Bool :=
  match a.strict with
  | some b => .ok b
  | none => v.config >>= Settings.isStrict

/-- The text of the template, told from what is seen. -/
def templateIn (v : View) : Except Fault String :=
  if a.template = "-" then (Text.ofBytes stdin).mapError Fault.breach
  else v.files.readText v.cwd (.ofString a.template)

/-- The bindings, told from what is seen. -/
def bindingsIn (v : View) : Except Fault Mapping :=
  Bindings.collect v.files v.cwd a.bindings a.assignments

/-- The inputs of the scan, told from what is seen: the first thing that fails decides. -/
def inputsIn (v : View) : Except Fault Checked := do
  let markers ← a.markersIn v
  let strict ← a.isStrictIn v
  let bindings ← a.bindingsIn v
  let text ← a.templateIn stdin v
  return ⟨text, markers, bindings, strict⟩

/-- The template filled in, told from what is seen. -/
def renderedIn (v : View) : Except Fault CodeText :=
  a.inputsIn stdin v >>= fun c => c.runText.result

theorem looksAt_config : Work.LooksAt a.root a.config (·.config) :=
  Work.looksAt_load fun _ => rfl

theorem looksAt_markers : Work.LooksAt a.root a.markers a.markersIn := by
  have hconfig (start stop : Option String) := a.looksAt_config.bind fun config =>
    (Work.looksAt_ofExcept (marker start config "start")).bind fun s =>
      (Work.looksAt_ofExcept (marker stop config "end")).bind fun t =>
        Work.looksAt_ofExcept ((Markers.ofValues s t).mapError Fault.error)
  change Work.LooksAt a.root a.markers fun v => a.markersIn v
  unfold markers markersIn
  cases a.start with
  | none => exact hconfig none _
  | some s =>
    cases a.stop with
    | none => exact hconfig (some s) none
    | some t => exact Work.looksAt_ofExcept _

theorem looksAt_isStrict : Work.LooksAt a.root a.isStrict a.isStrictIn := by
  change Work.LooksAt a.root a.isStrict fun v => a.isStrictIn v
  unfold isStrict isStrictIn
  cases a.strict with
  | none => exact a.looksAt_config.bind fun _ => Work.looksAt_ofExcept _
  | some b => exact Work.looksAt_pure b

theorem looksAt_templateText : Work.LooksAt a.root (a.templateText stdin) (a.templateIn stdin) := by
  change Work.LooksAt a.root (a.templateText stdin) fun v => a.templateIn stdin v
  unfold templateText templateIn
  by_cases h : a.template = "-"
  · simp only [if_pos h]
    exact Work.looksAt_ofExcept _
  · simp only [if_neg h]
    exact Work.looksAt_current_bind
      (g := fun w _ => w.files.readText w.cwd (.ofString a.template))
      (fun _ => Work.looksAt_ofExcept _) fun _ => rfl

/-- What filling in a template comes to is told from what is seen. -/
theorem looksAt_rendered : Work.LooksAt a.root (a.rendered stdin) (a.renderedIn stdin) := by
  have h := a.looksAt_markers.bind fun markers => a.looksAt_isStrict.bind fun strict =>
    Work.looksAt_current_bind
      (y := fun w => do
        let bindings ← Work.ofExcept (Bindings.collect w.files w.cwd a.bindings a.assignments)
        let text ← a.templateText stdin
        Work.ofLogged (Checked.runText ⟨text, markers, bindings, strict⟩))
      (f := fun v => a.bindingsIn v >>= fun bindings => a.templateIn stdin v >>= fun text =>
        (Checked.runText ⟨text, markers, bindings, strict⟩).result)
      (fun _ => (Work.looksAt_ofExcept _).bind fun _ => (a.looksAt_templateText stdin).bind fun _ =>
        Work.looksAt_ofLogged _) fun _ => rfl
  refine ⟨h.fst, fun w => (h.result w).trans ?_⟩
  simp only [renderedIn, inputsIn, bind_assoc, pure_bind]

/-- A text written to where it belongs, told from what is seen. -/
def deliverIn (text : CodeText) (v : View) : Files × Except Fault Ending :=
  match a.outputPath with
  | none => (v.files, (a.toStandardOutput text).mapError Fault.breach)
  | some path =>
    match v.files.writeText v.cwd (.ofString path) (fileText text) with
    | .error f => (v.files, .error f)
    | .ok files => (files, (text.encodable.bind (a.toFile path)).mapError Fault.breach)

/-- The command without reports, told from what is seen. -/
def attemptIn (v : View) : Files × Except Fault Ending :=
  match a.renderedIn stdin v with
  | .error f => (v.files, .error f)
  | .ok text => a.deliverIn text v

/-- The command, told from what is seen. -/
def runIn (v : View) : Files × Except Fault Ending :=
  ((a.attemptIn stdin v).1, Ending.recovered a.report (a.attemptIn stdin v).2)

theorem outcome_deliver (text : CodeText) (w : Workspace) :
    (a.deliver text).outcome w = a.deliverIn text (w.view a.root) := by
  rw [deliver, deliverIn]
  cases a.outputPath with
  | none => rfl
  | some path =>
    have hcurrent : (Work.current w).2.result = .ok w := rfl
    have hfiles : (w.view a.root).files.writeText (w.view a.root).cwd (.ofString path)
      (fileText text) = w.files.writeText w.cwd (.ofString path) (fileText text) := rfl
    dsimp only
    rw [Work.outcome, (Work.bind_of_ok hcurrent).1, (Work.bind_of_ok hcurrent).2, hfiles]
    cases hwrite : w.files.writeText w.cwd (.ofString path) (fileText text) <;> rfl

theorem outcome_attempt (w : Workspace) :
    (a.attempt stdin).outcome w = a.attemptIn stdin (w.view a.root) := by
  have h := a.looksAt_rendered stdin
  rw [Work.outcome, attempt, attemptIn, ← h.result w]
  cases hr : (a.rendered stdin w).2.result with
  | error f =>
    rw [(Work.bind_of_error hr).1, (Work.bind_of_error hr).2, h.fst_eq]
    rfl
  | ok text =>
    rw [(Work.bind_of_ok hr).1, (Work.bind_of_ok hr).2, ← h.view_fst w]
    exact a.outcome_deliver text _

/-- How the command ends, and what it leaves in the files, is told from what it sees. -/
theorem outcome_run (w : Workspace) : (a.run stdin).outcome w = a.runIn stdin (w.view a.root) := by
  rw [run, Ending.outcome_recover, ← attempt, outcome_attempt, runIn]

end RenderArguments

/-! ## Any command -/

namespace ShowArguments

variable (a : ShowArguments)

/-- The command that shows the configuration, told from what is seen. -/
def runIn (v : View) : Files × Except Fault Ending :=
  (v.files, Ending.recovered a.report
    (v.config >>= fun config => (a.shown config).mapError Fault.breach))

theorem outcome_run (w : Workspace) : a.run.outcome w = a.runIn (w.view a.root) := by
  have hload : Work.LooksAt a.root (do
      Workspace.load (some (FilePath.ofPlace ((← Work.current).projectRoot a.root))) true)
      (·.config) := Work.looksAt_load fun _ => rfl
  have h : Work.LooksAt a.root (do
      let root := FilePath.ofPlace ((← Work.current).projectRoot a.root)
      let config ← Workspace.load (some root) true
      Work.ofExcept ((a.shown config).mapError Fault.breach)) _ :=
    hload.bind fun config => Work.looksAt_ofExcept _
  rw [run, Ending.outcome_recover, h.outcome_eq]
  rfl

/-- For a configuration that is loaded, the command ends with what is shown of it, or breaks off. -/
theorem result_run {a : ShowArguments} {w : Workspace} {config : Mapping}
    (h : (w.loadProject a.root).2.result = .ok config) :
    (a.run w).2.result = (a.shown config).mapError Fault.breach := by
  have hview : (w.view a.root).config = .ok config := h
  have hresult : (a.run w).2.result = (a.runIn (w.view a.root)).2 := (Prod.mk.inj (a.outcome_run w)).2
  rw [hresult, runIn, hview]
  change Ending.recovered a.report ((a.shown config).mapError Fault.breach) = _
  cases a.shown config <;> rfl

end ShowArguments

namespace Command

/-- A command, told from what is seen. -/
def runIn (stdin : ByteArray) (v : View) : Command → Files × Except Fault Ending
  | .render a => a.runIn stdin v
  | .inspect a => a.runIn v

/-- How a command ends, and what it leaves in the files, is told from what it sees. -/
theorem outcome_run (c : Command) (stdin : ByteArray) (w : Workspace) :
    (c.run stdin).outcome w = c.runIn stdin (w.view c.root) := by
  cases c with
  | render a => exact a.outcome_run stdin w
  | inspect a => exact a.outcome_run w

end Command

end CommandLine

end Stencil
