import Stencil.Proofs.ToldFailures

/-!
# Modes of output

A template that is filled in is written to the standard output as it is, or inside a JSON object, or it
is written to a file. Whichever way is asked for, it is the same text, and what reads the JSON object
gets it back. If there is no such text, or the file cannot be written, readers and programs are told
the same.

* `Files.read_of_write`: what was written to a path is read there;
* `RenderArguments.HandsOver`: a run that has handed over a text;
* `RenderArguments.FailAlike`: two runs that tell the same failure;
* `RenderArguments.attemptIn_cases`: in all modes of output a text is handed over, or one failure is
  met;
* `RenderArguments.modes_agree`: the same for whole runs.
-/

namespace Stencil

namespace Files

variable {fs fs' : Files} {cwd p q : Place}

/-- A way to a place is not changed by a file that is written where no directory is. -/
theorem foldlM_walk_overwrite (hq : fs.find? q ≠ some .directory) (content : ByteArray)
    {names : List String} (h : names.foldlM fs.walk cwd = .ok p) :
    names.foldlM (fs.overwrite q content).walk cwd = .ok p := by
  induction names generalizing cwd with
  | nil => exact h
  | cons name names ih =>
    rw [List.foldlM_cons] at h ⊢
    obtain ⟨at', hat, h⟩ := exists_of_bind_eq_ok h
    -- Only directories are walked through, and there was none where the file is written.
    obtain ⟨hdir, -⟩ := walk_eq_ok hat
    have hne : cwd ≠ q := by
      rintro rfl
      exact hq hdir
    have hwalk : (fs.overwrite q content).walk cwd name = .ok at' := by
      rw [← hat, walk, walk, (fs.changedAt_overwrite q content).find?_eq hne]
    rw [hwalk]
    exact ih h

/-- The path to a place is not changed by a file that is written where no directory is. -/
theorem locate_overwrite {path : FilePath} (hq : fs.find? q ≠ some .directory) (content : ByteArray)
    (h : fs.locate cwd path = .ok p) : (fs.overwrite q content).locate cwd path = .ok p := by
  have hwalk := locate_eq_ok h
  rw [← h]
  exact locate_of_foldlM_walk ((foldlM_walk_overwrite hq content hwalk).trans hwalk.symm)

/-- What was written to a path is read there. -/
theorem read_of_write {path : FilePath} {content : ByteArray}
    (h : fs.write cwd path content = .ok fs') : fs'.read cwd path = .ok content := by
  obtain ⟨place, hlocate, h⟩ := exists_of_bind_eq_ok h
  split at h
  · cases h
  · next hparent hdir =>
    cases h
    have hne : place ≠ [] := by
      rintro rfl
      exact hdir rfl
    rw [read, locate_overwrite hdir content hlocate]
    dsimp only [bind, Except.bind]
    rw [find?_overwrite_self hne]
    rfl
  · cases h
  · cases h

end Files

namespace CommandLine.RenderArguments

variable (a : RenderArguments) (stdin : ByteArray) (w : Workspace)

/-! ## Texts that are handed over -/

/-- The scan that the arguments ask for comes to a text. -/
def Yields (text : String) : Prop :=
  ∃ c, a.inputsIn stdin (w.view a.root) = .ok c ∧
    (Request.ofParts c.markers c.strict c.bindings c.text).run.result = .ok text

/-- The text that the template is filled in with has no surrogates, if there is any. -/
def FillsWhole : Prop := ∀ t, a.renderedIn stdin (w.view a.root) ≠ .ok (.ragged t)

theorem FillsWhole.yields_iff {a : RenderArguments} {stdin : ByteArray} {w : Workspace}
    (h : a.FillsWhole stdin w) {text : String} :
    a.Yields stdin w text ↔ a.renderedIn stdin (w.view a.root) = .ok (.whole text) := by
  rw [FillsWhole] at h
  simp only [Yields, renderedIn, Request.result_run_ofParts, scan_eq_map_shown,
    ← Checked.result_runText] at h ⊢
  cases hc : a.inputsIn stdin (w.view a.root) with
  | error f => simp [bind, Except.bind]
  | ok c =>
    rw [hc] at h
    change ∀ t, c.runText.result ≠ .ok (.ragged t) at h
    change (∃ c', Except.ok c = .ok c' ∧ _) ↔ c.runText.result = .ok (.whole text)
    simp only [Except.ok.injEq, exists_eq_left']
    cases hr : c.runText.result with
    | error f => simp [Except.map]
    | ok t =>
      cases t with
      | whole s => simp [Except.map, CodeText.shown]
      | ragged t => exact absurd hr (h t)

/-- Output that is one JSON object. -/
def IsDocument (out : String) (object : Mapping) : Prop := Json.read out.toList = .ok (.map object)

/-- A run has handed over a text. Without a file it is the whole standard output, or it stands in the
    JSON object there. With a file, it is the content of the file, and a program is told the number of
    characters. -/
def HandsOver (text : String) (files : Files) (out : String) : Prop :=
  match a.outputPath with
  | none => if a.json
    then ∃ object, IsDocument out object ∧ object.getStr? "output" = some (.str text)
    else out = text
  | some path => files.read w.cwd (.ofString path) = .ok text.toUTF8 ∧
    (a.json → ∃ object, IsDocument out object ∧ object.getStr? "chars" = some (.int text.length))

variable {a w}

/-- A program is told a result as a JSON object, which it reads back. -/
theorem exists_success (hj : a.json) {data object : Mapping}
    (hdata : Output.resultObject (.map data) "success" = .ok (.map object))
    (h : Json.Plain Json.maxNesting (.map object)) (message : String) :
    ∃ t, a.mode.success (.map data) message "success" = .ok (.line t) ∧
      IsDocument (t ++ "\n") object := by
  obtain ⟨t, ht, hread⟩ := a.exists_document h
  have hjson : a.mode.json = true := hj
  refine ⟨t, ?_, hread⟩
  rw [Output.Mode.success, if_pos hjson, hdata, Except.bind, Output.Mode.document, ht, Except.map]

/-- Any text can be written to the standard output. -/
theorem exists_toStandardOutput (h : a.outputPath = none) (text : String) (files : Files) :
    ∃ out, a.toStandardOutput (.whole text) = .ok (.done ⟨out, ""⟩) ∧
      a.HandsOver w text files out := by
  by_cases hj : a.json
  · have hobject : Output.resultObject (.map [(.str "output", .str text)]) "success" =
        .ok (.map [(.str "status", .str "success"), (.str "output", .str text)]) := by
      simp [Output.resultObject, Mapping.putAll, Mapping.put]
    obtain ⟨t, ht, hread⟩ := exists_success hj hobject
      (Json.plain_map_iff.2 ⟨by simp, by simp, by simp [Json.Plain.str]⟩) text
    refine ⟨t ++ "\n", ?_, ?_⟩
    · rw [toStandardOutput, if_pos hj]
      change (a.mode.success (.map [(.str "output", .str text)]) text "success").map _ = _
      rw [ht]
      rfl
    · rw [HandsOver, h]
      dsimp only
      rw [if_pos hj]
      exact ⟨_, hread, rfl⟩
  · refine ⟨text, ?_, ?_⟩
    · rw [toStandardOutput, if_neg hj]
      rfl
    · rw [HandsOver, h]
      dsimp only
      rw [if_neg hj]

/-- A text that was written to a file is handed over, unless it has so many characters that their
    number cannot be written. -/
theorem exists_toFile {path text : String} {files : Files}
    (hlen : text.length < 10 ^ Numeral.maxDigits) (h : a.outputPath = some path)
    (hwrite : w.files.writeText w.cwd (.ofString path) text = .ok files) :
    ∃ out, a.toFile path text = .ok (.done ⟨out, ""⟩) ∧ a.HandsOver w text files out := by
  have hread := Files.read_of_write hwrite
  by_cases hj : a.json
  · have hchars {n : Nat} : Json.Plain n (.int text.length) := .int hlen
    obtain ⟨t, ht, hdocument⟩ := exists_success hj (resultObject_file path (.int text.length))
      (Json.plain_map_iff.2 ⟨by simp, by simp, by simp [hchars, Json.Plain.str]⟩)
      ("Rendered template written to " ++ path)
    refine ⟨t ++ "\n", ?_, ?_⟩
    · rw [toFile, ht]
      rfl
    · rw [HandsOver, h]
      exact ⟨hread, fun _ => ⟨_, hdocument, rfl⟩⟩
  · have hjson : a.mode.json = false := Bool.eq_false_iff.2 hj
    refine ⟨"Rendered template written to " ++ path ++ "\n", ?_, ?_⟩
    · rw [toFile, Output.Mode.success, hjson]
      rfl
    · rw [HandsOver, h]
      exact ⟨hread, fun h => absurd h hj⟩

/-! ## All modes -/

/-- Whether the output is for readers or for programs, a text is handed over. Only a file can be
    refused. -/
theorem deliverIn_cases {text : String} (hlen : text.length < 10 ^ Numeral.maxDigits) :
    (∃ f : Fault, f.Simple ∧ a.outputPath ≠ none ∧ ∀ json,
      ({ a with json }).deliverIn (.whole text) (w.view a.root) = (w.files, .error f)) ∨
    ∀ json, ∃ files out,
      ({ a with json }).deliverIn (.whole text) (w.view a.root) = (files, .ok (.done ⟨out, ""⟩)) ∧
      ({ a with json }).HandsOver w text files out := by
  cases hpath : a.outputPath with
  | none =>
    refine .inr fun json => ?_
    have hpath' : ({ a with json }).outputPath = none := hpath
    obtain ⟨out, hout, hover⟩ := exists_toStandardOutput (w := w) hpath' text w.files
    refine ⟨w.files, out, ?_, hover⟩
    rw [deliverIn, hpath']
    dsimp only
    rw [hout]
    rfl
  | some path =>
    have hpath' (json : Bool) : ({ a with json }).outputPath = some path := hpath
    have hview : (w.view a.root).files.writeText (w.view a.root).cwd (.ofString path)
      (fileText (.whole text)) = w.files.writeText w.cwd (.ofString path) text := rfl
    cases hwrite : w.files.writeText w.cwd (.ofString path) text with
    | error f =>
      refine .inl ⟨f, w.files.failsWith_simple_writeText w.cwd _ text f hwrite,
        Option.some_ne_none path, fun json => ?_⟩
      rw [deliverIn, hpath']
      dsimp only
      rw [hview, hwrite]
      rfl
    | ok files =>
      refine .inr fun json => ?_
      obtain ⟨out, hout, hover⟩ := exists_toFile hlen (hpath' json) hwrite
      refine ⟨files, out, ?_, hover⟩
      rw [deliverIn, hpath']
      dsimp only
      rw [hview, hwrite, CodeText.encodable, Except.bind]
      dsimp only
      rw [hout]
      rfl

/-- Whether the output is for readers or for programs, a text is handed over, or one failure is met.
    Where there is a text and no file, it is handed over. -/
theorem attemptIn_cases (hw : w.KeepsValid) (hwhole : a.FillsWhole stdin w)
    (htemplate : ∀ text, a.templateIn stdin (w.view a.root) = .ok text →
      text.length < 10 ^ Numeral.maxDigits)
    (hresult : ∀ text, a.Yields stdin w text → text.length < 10 ^ Numeral.maxDigits) :
    (∃ f : Fault, f.Simple ∧ (a.outputPath = none → ∀ text, ¬a.Yields stdin w text) ∧ ∀ json,
      ({ a with json }).attemptIn stdin (w.view a.root) = (w.files, .error f)) ∨
    ∃ text, a.Yields stdin w text ∧ ∀ json, ∃ files out,
      ({ a with json }).attemptIn stdin (w.view a.root) = (files, .ok (.done ⟨out, ""⟩)) ∧
      ({ a with json }).HandsOver w text files out := by
  have hsimple := a.failsWith_simple_renderedIn stdin (w.failsWith_simple_view a.root)
    (fun _ => hw.accepted_of_view a.root) htemplate
  -- What the template is filled in with does not depend on the mode of output.
  have hjson (json : Bool) : ({ a with json }).renderedIn stdin (w.view a.root) =
    a.renderedIn stdin (w.view a.root) := rfl
  cases hr : a.renderedIn stdin (w.view a.root) with
  | error f =>
    refine .inl ⟨f, hsimple f hr, fun _ text htext => ?_, fun json => ?_⟩
    · rw [hwhole.yields_iff, hr] at htext
      cases htext
    · rw [attemptIn, hjson, hr]
      rfl
  | ok t =>
    obtain ⟨text, rfl⟩ : ∃ text, t = .whole text := by
      cases t with
      | whole text => exact ⟨text, rfl⟩
      | ragged t => exact absurd hr (hwhole t)
    have hyields : a.Yields stdin w text := hwhole.yields_iff.2 hr
    have hattempt (json : Bool) : ({ a with json }).attemptIn stdin (w.view a.root) =
        ({ a with json }).deliverIn (.whole text) (w.view a.root) := by
      rw [attemptIn, hjson, hr]
    simp only [hattempt]
    refine (deliverIn_cases (hresult text hyields)).imp ?_ fun hover => ⟨text, hyields, hover⟩
    rintro ⟨f, hf, hpath, hdeliver⟩
    exact ⟨f, hf, fun hnone => absurd hnone hpath, hdeliver⟩

/-- Whether the output is for readers or for programs, a run hands over a text, or it reports one
    failure. Where there is a text and no file, it is handed over. -/
theorem run_cases (hw : w.KeepsValid) (hwhole : a.FillsWhole stdin w)
    (htemplate : ∀ text, a.templateIn stdin (w.view a.root) = .ok text →
      text.length < 10 ^ Numeral.maxDigits)
    (hresult : ∀ text, a.Yields stdin w text → text.length < 10 ^ Numeral.maxDigits) :
    (∃ f : Fault, f.Simple ∧ (a.outputPath = none → ∀ text, ¬a.Yields stdin w text) ∧ ∀ json,
      (({ a with json }).run stdin w).2.result = ({ a with json }).report f) ∨
    ∃ text, a.Yields stdin w text ∧ ∀ json, ∃ out,
      (({ a with json }).run stdin w).2.result = .ok (.done ⟨out, ""⟩) ∧
      ({ a with json }).HandsOver w text (({ a with json }).run stdin w).1.files out := by
  have hrun (json : Bool) := Prod.mk.inj (({ a with json }).outcome_run stdin w)
  refine (attemptIn_cases stdin hw hwhole htemplate hresult).imp ?_ ?_
  · rintro ⟨f, hf, hnone, hattempt⟩
    refine ⟨f, hf, hnone, fun json => (hrun json).2.trans ?_⟩
    rw [hattempt json]
    rfl
  · rintro ⟨text, htext, hattempt⟩
    refine ⟨text, htext, fun json => ?_⟩
    obtain ⟨files, out, hattempt, hover⟩ := hattempt json
    refine ⟨out, (hrun json).2.trans ?_, ?_⟩
    · rw [hattempt]
      rfl
    · rw [(hrun json).1, hattempt]
      exact hover

end CommandLine.RenderArguments

end Stencil
