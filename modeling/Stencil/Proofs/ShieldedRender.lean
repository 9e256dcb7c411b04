import Stencil.Proofs.ToldFailures

/-!
# Configurations that do not matter

The command that fills in a template looks at the configuration for what its arguments leave open, and
for nothing else. So two projects that differ in their configurations only cannot be told apart by a
run whose arguments say it all, nor by one that finds the same where they do not. What a run writes has
to stand elsewhere, for the configurations are files themselves.

* `Files.AlikeOutside`: states of files that differ in some directories only;
* `Files.writeText_alike`: writing elsewhere does the same in both of them;
* `RenderArguments.Parallel`, `RenderArguments.EndsAlike`: two runs that differ in the configuration,
  and how they end;
* `RenderArguments.endsAlike_of_inputs`: what the inputs of the scan are decides how a run ends;
* `RenderArguments.run_shielded`: what of a configuration matters to a run.
-/

namespace Stencil

/-! ## Files that differ in some directories only -/

/-- The same stands at a place, whenever it was written. -/
inductive FileEntry.Alike : Option FileEntry → Option FileEntry → Prop
  | nothing : Alike none none
  | directory : Alike (some .directory) (some .directory)
  | file (content : ByteArray) (stamp stamp' : Nat) :
    Alike (some (.file content stamp)) (some (.file content stamp'))

theorem FileEntry.Alike.refl (e : Option FileEntry) : Alike e e := by
  cases e with
  | none => exact .nothing
  | some e =>
    cases e with
    | directory => exact .directory
    | file content stamp => exact .file content stamp stamp

/-- No beginning of a path leads into one of some directories. -/
def FilePath.Avoids (directories : List Place) (cwd : Place) (path : FilePath) : Prop :=
  ∀ front, front <+: path.segments → ∀ d ∈ directories,
    ¬d <+: front.foldl step (if path.absolute then [] else cwd)

instance (directories : List Place) (cwd : Place) (path : FilePath) :
    Decidable (path.Avoids directories cwd) :=
  decidable_of_iff (∀ front ∈ path.segments.inits, ∀ d ∈ directories,
    ¬d <+: front.foldl FilePath.step (if path.absolute then [] else cwd)) <| by
      simp only [List.mem_inits]
      rfl

namespace Files

/-- Outside of some directories, the same stands at every place. -/
def AlikeOutside (fs : Files) (directories : List Place) (fs' : Files) : Prop :=
  ∀ p, (∀ d ∈ directories, ¬d <+: p) → FileEntry.Alike (fs.find? p) (fs'.find? p)

variable {directories : List Place} {fs fs' : Files} {cwd p : Place}

theorem alikeOutside_refl (directories : List Place) (fs : Files) :
    fs.AlikeOutside directories fs := fun _ _ => .refl _

/-- What is put into one of the directories makes no difference outside of them. -/
theorem AlikeOutside.put (h : fs.AlikeOutside directories fs') {d : Place} (hd : d ∈ directories)
    (hp : d <+: p) (e : FileEntry) : fs.AlikeOutside directories (fs'.put p e) := by
  intro q hq
  have hne : q ≠ p := by
    rintro rfl
    exact hq d hd hp
  rw [find?_put_of_ne fs' hne]
  exact h q hq

theorem walk_alike (h : FileEntry.Alike (fs.find? p) (fs'.find? p)) (name : String) :
    fs'.walk p name = fs.walk p name := by
  rw [walk, walk]
  generalize fs.find? p = e, fs'.find? p = e' at h
  cases h <;> rfl

/-- A way that is the same in both states leads to the same place, if to any. -/
theorem foldlM_walk_alike (names : List String)
    (h : ∀ front, front <+: names → FileEntry.Alike (fs.find? (front.foldl FilePath.step p))
      (fs'.find? (front.foldl FilePath.step p))) :
    names.foldlM fs'.walk p = names.foldlM fs.walk p ∧
      ∀ q, names.foldlM fs.walk p = .ok q → q = names.foldl FilePath.step p := by
  induction names generalizing p with
  | nil => exact ⟨rfl, fun q hq => (Except.ok.inj hq).symm⟩
  | cons name names ih =>
    have hhead : FileEntry.Alike (fs.find? p) (fs'.find? p) := h [] List.nil_prefix
    rw [List.foldlM_cons, List.foldlM_cons, walk_alike hhead]
    cases hw : fs.walk p name with
    | error reason => exact ⟨rfl, nofun⟩
    | ok p' =>
      obtain ⟨-, rfl⟩ := walk_eq_ok hw
      exact ih fun front hfront => h (name :: front) (List.prefix_cons_inj name |>.2 hfront)

/-- A path that avoids the directories leads to the same place in both states, and not into them. -/
theorem locate_alike {path : FilePath} (h : fs.AlikeOutside directories fs')
    (hpath : path.Avoids directories cwd) : fs'.locate cwd path = fs.locate cwd path ∧
      ∀ q, fs.locate cwd path = .ok q → ∀ d ∈ directories, ¬d <+: q := by
  obtain ⟨hsame, hplace⟩ := foldlM_walk_alike path.segments fun front hfront =>
    h _ (hpath front hfront)
  refine ⟨locate_of_foldlM_walk hsame, fun q hq => ?_⟩
  rw [hplace q (locate_eq_ok hq)]
  exact hpath _ List.prefix_rfl

/-- Writing to a path that avoids the directories is refused in both states, or it writes to the same
    place. -/
theorem writeText_alike {path : FilePath} (h : fs.AlikeOutside directories fs')
    (hpath : path.Avoids directories cwd) (s : String) :
    (∃ f, fs.writeText cwd path s = .error f ∧ fs'.writeText cwd path s = .error f) ∨
      ∃ q, fs.writeText cwd path s = .ok (fs.overwrite q s.toUTF8) ∧
        fs'.writeText cwd path s = .ok (fs'.overwrite q s.toUTF8) := by
  obtain ⟨hsame, hplace⟩ := locate_alike h hpath
  rw [writeText, writeText, write, write, hsame]
  cases hl : fs.locate cwd path with
  | error f => exact .inl ⟨f, rfl, rfl⟩
  | ok q =>
    have hq := hplace q hl
    -- What is found there, and in the directory above, is the same in both states.
    have hentry := h q hq
    have hparent := h q.dropLast fun d hd hp => hq d hd (hp.trans (List.dropLast_prefix q))
    dsimp only [bind, Except.bind]
    generalize fs.find? q = e, fs'.find? q = e' at hentry
    generalize fs.find? q.dropLast = d, fs'.find? q.dropLast = d' at hparent
    cases hentry <;> cases hparent <;>
      first
      | exact .inr ⟨q, rfl, rfl⟩
      | exact .inl ⟨_, rfl, rfl⟩

/-- The same was written in two states: nothing, or the same content to the same place. -/
inductive WrittenAlike (fs fs' : Files) : Files → Files → Prop
  | nothing : WrittenAlike fs fs' fs fs'
  | file (p : Place) (content : ByteArray) :
    WrittenAlike fs fs' (fs.overwrite p content) (fs'.overwrite p content)

end Files

namespace CommandLine.RenderArguments

variable (a : RenderArguments) (stdin : ByteArray) (w w' : Workspace) (root' : Option String)

/-! ## Two runs -/

/-- The directories of the configurations of two projects. -/
def configurations : List Place :=
  [w.projectRoot a.root, w'.projectRoot root'].map (· ++ Config.projectDirectory)

/-- Two workspaces, and a project in each, that differ in the configurations of the projects and in
    their environments only. What is read of the template and of the bindings is the same. -/
structure Parallel : Prop where
  cwd : w'.cwd = w.cwd
  files : w.files.AlikeOutside (a.configurations w w' root') w'.files
  template : a.templateIn stdin (w'.view root') = a.templateIn stdin (w.view a.root)
  bindings : a.bindingsIn (w'.view root') = a.bindingsIn (w.view a.root)

/-- The file that is written, if there is one, stands outside of the configurations. -/
def WritesElsewhere : Prop := ∀ path, a.outputPath = some path →
  (FilePath.ofString path).Avoids (a.configurations w w' root') w.cwd

/-- Two runs for two projects end alike: with the same code and output, and the same is written. -/
def EndsAlike : Prop :=
  (({ a with root := root' }).run stdin w').2.result = (a.run stdin w).2.result ∧
    w.files.WrittenAlike w'.files (a.run stdin w).1.files
      (({ a with root := root' }).run stdin w').1.files

/-- The markers that count under a configuration: those of the arguments, or else the configured
    ones. -/
def markersUnder (config : Mapping) : Except Fault Markers := do
  let s ← marker a.start config "start"
  let t ← marker a.stop config "end"
  (Markers.ofValues s t).mapError Fault.error

/-- The mode that counts under a configuration: the one of the arguments, or else the configured
    one. -/
def strictUnder (config : Mapping) : Except Fault Bool :=
  match a.strict with
  | some b => .ok b
  | none => Settings.isStrict config

/-- The same markers and the same mode count under two configurations. -/
structure Agrees (config config' : Mapping) : Prop where
  start : marker a.start config' "start" = marker a.start config "start"
  stop : marker a.stop config' "end" = marker a.stop config "end"
  strict : a.strictUnder config' = a.strictUnder config

/-- The arguments leave neither a marker nor the mode open. -/
structure SaysAll : Prop where
  start : a.start.isSome
  stop : a.stop.isSome
  strict : a.strict.isSome

/-- What is reported if the configuration cannot be loaded: the reason, unless the arguments have both
    markers already and one of them is empty. -/
def failureUnder (e : Error) : Error :=
  match a.start, a.stop with
  | some s, some t =>
    if s = "" then .emptyMarker "start" (.str s) else if t = "" then .emptyMarker "end" (.str t) else e
  | _, _ => e

variable {a stdin w w' root'}

/-- A template on the standard input and no file of bindings are the same everywhere. -/
theorem Parallel.of_standardInput (ht : a.template = "-") (hb : a.bindings = none)
    (hcwd : w'.cwd = w.cwd)
    (hfiles : w.files.AlikeOutside (a.configurations w w' root') w'.files) :
    a.Parallel stdin w w' root' where
  cwd := hcwd
  files := hfiles
  template := by rw [templateIn, templateIn, if_pos ht, if_pos ht]
  bindings := by
    rw [bindingsIn, bindingsIn, hb]
    rfl

/-- A text is delivered alike outside of the configurations. -/
theorem deliverIn_alike (h : a.Parallel stdin w w' root') (hw : a.WritesElsewhere w w' root')
    (text : CodeText) :
    (a.deliverIn text (w'.view root')).2 = (a.deliverIn text (w.view a.root)).2 ∧
      w.files.WrittenAlike w'.files (a.deliverIn text (w.view a.root)).1
        (a.deliverIn text (w'.view root')).1 := by
  cases hpath : a.outputPath with
  | none =>
    simp only [deliverIn, hpath]
    exact ⟨trivial, .nothing⟩
  | some path =>
    have hcwd : (w'.view root').cwd = (w.view a.root).cwd := h.cwd
    simp only [deliverIn, hpath, hcwd]
    change _ ∧ w.files.WrittenAlike w'.files _ _
    rcases Files.writeText_alike h.files (hw path hpath) (fileText text) with
      ⟨f, hf, hf'⟩ | ⟨place, hplace, hplace'⟩
    · have hv : (w.view a.root).files.writeText (w.view a.root).cwd (.ofString path)
        (fileText text) = .error f := hf
      have hv' : (w'.view root').files.writeText (w.view a.root).cwd (.ofString path)
        (fileText text) = .error f := hf'
      rw [hv, hv']
      exact ⟨rfl, .nothing⟩
    · have hv : (w.view a.root).files.writeText (w.view a.root).cwd (.ofString path)
        (fileText text) = .ok (w.files.overwrite place (fileText text).toUTF8) := hplace
      have hv' : (w'.view root').files.writeText (w.view a.root).cwd (.ofString path)
        (fileText text) = .ok (w'.files.overwrite place (fileText text).toUTF8) := hplace'
      rw [hv, hv']
      exact ⟨rfl, .file place (fileText text).toUTF8⟩

/-- What the inputs of the scan are decides how a run ends. -/
theorem endsAlike_of_inputs (h : a.Parallel stdin w w' root') (hw : a.WritesElsewhere w w' root')
    (hinputs : a.inputsIn stdin (w'.view root') = a.inputsIn stdin (w.view a.root)) :
    a.EndsAlike stdin w w' root' := by
  have hrun := a.outcome_run stdin w
  have hrun' : (({ a with root := root' }).run stdin w').1.files = (a.runIn stdin (w'.view root')).1 ∧
      (({ a with root := root' }).run stdin w').2.result = (a.runIn stdin (w'.view root')).2 :=
    Prod.mk.inj (({ a with root := root' }).outcome_run stdin w')
  obtain ⟨hfiles, hresult⟩ := Prod.mk.inj hrun
  rw [EndsAlike, hfiles, hresult, hrun'.1, hrun'.2]
  have hrendered : a.renderedIn stdin (w'.view root') = a.renderedIn stdin (w.view a.root) := by
    rw [renderedIn, hinputs, renderedIn]
  simp only [runIn, attemptIn, hrendered]
  cases a.renderedIn stdin (w.view a.root) with
  | error f => exact ⟨rfl, .nothing⟩
  | ok text =>
    obtain ⟨hsame, hwritten⟩ := deliverIn_alike h hw text
    exact ⟨congrArg _ hsame, hwritten⟩

/-! ## What a configuration decides -/

variable {v v' : View}

theorem inputsIn_congr (hm : a.markersIn v' = a.markersIn v) (hs : a.isStrictIn v' = a.isStrictIn v)
    (hb : a.bindingsIn v' = a.bindingsIn v) (ht : a.templateIn stdin v' = a.templateIn stdin v) :
    a.inputsIn stdin v' = a.inputsIn stdin v := by
  rw [inputsIn, hm, hs, hb, ht, inputsIn]

/-- If the arguments say it all, the configuration is not looked at. -/
theorem markersIn_of_saysAll (h : a.SaysAll) (v v' : View) :
    a.markersIn v' = a.markersIn v ∧ a.isStrictIn v' = a.isStrictIn v := by
  obtain ⟨s, hs⟩ := Option.isSome_iff_exists.1 h.start
  obtain ⟨t, ht⟩ := Option.isSome_iff_exists.1 h.stop
  obtain ⟨b, hb⟩ := Option.isSome_iff_exists.1 h.strict
  simp only [markersIn, isStrictIn, hs, ht, hb, and_self]

/-- A marker that is left open is looked up in the configuration. -/
theorem markersIn_of_open (h : a.start = none ∨ a.stop = none) (v : View) :
    a.markersIn v = v.config >>= a.markersUnder := by
  unfold markersIn markersUnder
  rcases h with h | h
  · rw [h]
  · rw [h]
    cases a.start <;> rfl

/-- A mode that is left open is looked up in the configuration. -/
theorem isStrictIn_of_config {config : Mapping} (hv : v.config = .ok config) :
    a.isStrictIn v = a.strictUnder config := by
  rw [isStrictIn, strictUnder, hv]
  rfl

/-- Configurations under which the same counts come to the same. -/
theorem markersIn_of_agrees {config config' : Mapping} (hv : v.config = .ok config)
    (hv' : v'.config = .ok config') (h : a.Agrees config config') :
    a.markersIn v' = a.markersIn v ∧ a.isStrictIn v' = a.isStrictIn v := by
  refine ⟨?_, ?_⟩
  · by_cases hopen : a.start = none ∨ a.stop = none
    · rw [markersIn_of_open hopen, markersIn_of_open hopen, hv, hv']
      change a.markersUnder config' = a.markersUnder config
      rw [markersUnder, markersUnder, h.start, h.stop]
    · obtain ⟨⟨s, hs⟩, t, ht⟩ := (not_or.1 hopen).imp Option.ne_none_iff_exists'.1
        Option.ne_none_iff_exists'.1
      simp only [markersIn, hs, ht]
  · rw [isStrictIn_of_config hv, isStrictIn_of_config hv', h.strict]

/-- Markers from two texts, the first of which is empty. -/
theorem ofStrings_of_start_eq {s : String} (h : s = "") (t : String) :
    Markers.ofStrings s t = .error (.emptyMarker "start" (.str s)) := by
  subst h
  rfl

/-- Markers from two texts, the second of which is empty, but not the first one. -/
theorem ofStrings_of_stop_eq {s t : String} (hs : s ≠ "") (h : t = "") :
    Markers.ofStrings s t = .error (.emptyMarker "end" (.str t)) := by
  subst h
  simp [Markers.ofStrings, Markers.ofValues, Markers.marker, hs, bind, Except.bind]

/-- If the configuration cannot be loaded and is asked for, that is reported, unless an empty marker
    comes before. -/
theorem inputsIn_of_config_eq_error {e : Error} (hv : v.config = .error (.error e))
    (h : ¬a.SaysAll) : a.inputsIn stdin v = .error (.error (a.failureUnder e)) := by
  by_cases hopen : a.start = none ∨ a.stop = none
  · have hfailure : a.failureUnder e = e := by
      rw [failureUnder]
      rcases hopen with hs | ht
      · rw [hs]
      · rw [ht]
        cases a.start <;> rfl
    rw [inputsIn, markersIn_of_open hopen, hv, hfailure]
    rfl
  · obtain ⟨⟨s, hs⟩, t, ht⟩ := (not_or.1 hopen).imp Option.ne_none_iff_exists'.1
      Option.ne_none_iff_exists'.1
    -- Both markers are given, so it is the mode that is left open.
    have hstrict : a.strict = none := by
      rw [← Option.not_isSome_iff_eq_none]
      exact fun hb => h ⟨by rw [hs]; rfl, by rw [ht]; rfl, hb⟩
    have hmode : a.isStrictIn v = .error (.error e) := by
      rw [isStrictIn, hstrict, hv]
      rfl
    have hmarkers : a.markersIn v = (Markers.ofStrings s t).mapError Fault.error := by
      simp only [markersIn, hs, ht]
    rw [inputsIn, hmarkers, hmode, failureUnder, hs, ht]
    dsimp only
    split
    · next hempty => rw [ofStrings_of_start_eq hempty]; rfl
    · next hstart =>
      split
      · next hempty => rw [ofStrings_of_stop_eq hstart hempty]; rfl
      · next hstop =>
        rw [Markers.ofStrings_self ⟨s, t, hstart, hstop⟩]
        rfl

/-- A failure of the library that can be told is reported. -/
theorem exists_report {e : Error} (h : e.Simple) : ∃ o, a.report (.error e) = .ok ⟨1, o⟩ := by
  by_cases hj : a.json
  · obtain ⟨t, ht, -⟩ := a.exists_report_of_json (f := .error e) hj h rfl
    exact ⟨_, ht⟩
  · exact ⟨_, a.report_of_told_of_not_json (f := .error e) (Bool.eq_false_iff.2 hj) rfl⟩

theorem simple_failureUnder {e : Error} (h : e.Simple) : (a.failureUnder e).Simple := by
  unfold failureUnder
  split
  · split
    · exact ⟨_, rfl⟩
    · split
      · exact ⟨_, rfl⟩
      · exact h
  · exact h

/-- A run whose arguments say it all ends alike whatever the configurations are, even if they cannot be
    loaded. Any run ends alike under two configurations if the same markers and the same mode count
    under them. If the configuration cannot be loaded, a run whose arguments leave something open
    reports that, whatever its template and its bindings are, unless it has an empty marker to report
    before. -/
theorem run_shielded (a : RenderArguments) (stdin : ByteArray) :
    (∀ w w' root', a.Parallel stdin w w' root' → a.WritesElsewhere w w' root' →
      (a.SaysAll → a.EndsAlike stdin w w' root') ∧
      ∀ config config', (w.view a.root).config = .ok config →
        (w'.view root').config = .ok config' → a.Agrees config config' →
          a.EndsAlike stdin w w' root') ∧
    ∀ w e, (w.view a.root).config = .error (.error e) → ¬a.SaysAll →
      ∃ o, (a.run stdin w).2.result = .ok ⟨1, o⟩ ∧ o.out = "" ∧
        (Fault.error (a.failureUnder e)).Reports a.mode o.err ∧
        (a.run stdin w).1.files = w.files := by
  refine ⟨fun w w' root' h hw => ⟨fun hsays => ?_, fun config config' hv hv' hagrees => ?_⟩,
    fun w e hv hsays => ?_⟩
  · obtain ⟨hmarkers, hstrict⟩ := markersIn_of_saysAll hsays (w.view a.root) (w'.view root')
    exact endsAlike_of_inputs h hw (inputsIn_congr hmarkers hstrict h.bindings h.template)
  · obtain ⟨hmarkers, hstrict⟩ := markersIn_of_agrees hv hv' hagrees
    exact endsAlike_of_inputs h hw (inputsIn_congr hmarkers hstrict h.bindings h.template)
  · have hsimple : e.Simple := w.failsWith_simple_view a.root _ hv
    obtain ⟨o, ho⟩ := exists_report (a := a) (simple_failureUnder (a := a) hsimple)
    have hattempt : a.attemptIn stdin (w.view a.root) =
        (w.files, .error (.error (a.failureUnder e))) := by
      rw [attemptIn, renderedIn, inputsIn_of_config_eq_error hv hsays]
      rfl
    obtain ⟨hfiles, hresult⟩ := Prod.mk.inj (a.outcome_run stdin w)
    rw [hattempt] at hfiles hresult
    have hreport : Ending.recovered a.report (.error (.error (a.failureUnder e))) =
      .ok ⟨1, o⟩ := ho
    obtain ⟨-, hout, hreports⟩ := a.report_eq_ok ho
    exact ⟨o, hresult.trans hreport, hout, hreports, hfiles⟩

/-- The second of three workspaces has a level of logging that is refused, and a directory for layers;
    the third one only asks for more to be logged. A run whose arguments say it all does not notice
    either. A run that leaves the mode open notices the refused level alone. -/
theorem run_shielded_from_level :
    let full : RenderArguments :=
      { start := some "<", stop := some ">", strict := some false, output := some "out" }
    let part : RenderArguments := { start := some "<", stop := some ">" }
    let files := Files.empty.put [".textparser"] .directory
    let w : Workspace := ⟨files, [], [], "", id, .empty⟩
    let w₁ : Workspace := ⟨files.put Config.projectDirectory .directory,
      [("TEXTPARSER_LOGGING__LEVEL", "none")], [], "", id, .empty⟩
    let w₂ : Workspace := ⟨files, [("TEXTPARSER_LOGGING__LEVEL", "DEBUG")], [], "", id, .empty⟩
    let stdin := "<?n(**1**)>".toUTF8
    full.EndsAlike stdin w w₁ none ∧ part.EndsAlike stdin w w₂ none ∧
      ∃ e o, (part.run stdin w₁).2.result = .ok ⟨1, o⟩ ∧ (w₁.view none).config = .error (.error e) ∧
        (Fault.error e).Reports part.mode o.err := by
  intro full part files w w₁ w₂ stdin
  have hfull : full.Parallel stdin w w₁ none := by
    refine .of_standardInput rfl rfl rfl ?_
    exact (Files.alikeOutside_refl _ files).put List.mem_cons_self List.prefix_rfl .directory
  have helsewhere : full.WritesElsewhere w w₁ none := by
    rintro path ⟨⟩
    decide +kernel
  have hpart : part.Parallel stdin w w₂ none :=
    .of_standardInput rfl rfl rfl (Files.alikeOutside_refl _ files)
  have hnowhere : part.WritesElsewhere w w₂ none := nofun
  have hstrict : (w.view none).config.bind Settings.isStrict = .ok false ∧
    (w₂.view none).config.bind Settings.isStrict = .ok false := by decide +kernel
  have hrefused : ∃ e, (w₁.view none).config = .error (.error e) :=
    View.exists_of_isSome_refusal? (by decide +kernel)
  refine ⟨((run_shielded full stdin).1 w w₁ none hfull helsewhere).1 ⟨rfl, rfl, rfl⟩, ?_, ?_⟩
  · obtain ⟨config, hv, hm⟩ := exists_of_bind_eq_ok hstrict.1
    obtain ⟨config', hv', hm'⟩ := exists_of_bind_eq_ok hstrict.2
    exact ((run_shielded part stdin).1 w w₂ none hpart hnowhere).2 config config' hv hv'
      ⟨rfl, rfl, hm'.trans hm.symm⟩
  · obtain ⟨e, he⟩ := hrefused
    obtain ⟨o, ho, -, hreports, -⟩ := (run_shielded part stdin).2 w₁ e he nofun
    exact ⟨e, o, ho, he, hreports⟩

/-- The arguments say it all, but the file stands in the directory of the configuration. Where there is
    a directory of its name, it cannot be written. -/
theorem run_into_configuration :
    let a : RenderArguments :=
      { start := some "<", stop := some ">", strict := some false,
        output := some ".textparser/config/out" }
    let files := (Files.empty.put [".textparser"] .directory).put Config.projectDirectory .directory
    let w : Workspace := ⟨files, [], [], "", id, .empty⟩
    let w' : Workspace :=
      ⟨files.put (Config.projectDirectory ++ ["out"]) .directory, [], [], "", id, .empty⟩
    let stdin := "a".toUTF8
    a.SaysAll ∧ a.Parallel stdin w w' none ∧ ¬a.EndsAlike stdin w w' none := by
  intro a files w w' stdin
  have hparallel : a.Parallel stdin w w' none := by
    refine .of_standardInput rfl rfl rfl ?_
    exact (Files.alikeOutside_refl _ files).put List.mem_cons_self (List.prefix_append _ _)
      .directory
  have hcode : (a.run stdin w).2.result.toOption.map Ending.code = some 0 ∧
    (a.run stdin w').2.result.toOption.map Ending.code = some 1 := by decide +kernel
  refine ⟨⟨rfl, rfl, rfl⟩, hparallel, fun h => ?_⟩
  have hsame : (a.run stdin w').2.result = (a.run stdin w).2.result := h.1
  rw [hsame, hcode.1] at hcode
  cases hcode.2

end CommandLine.RenderArguments

end Stencil
