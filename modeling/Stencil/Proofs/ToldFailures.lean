import Stencil.Proofs.CommandView
import Stencil.Proofs.EnvironmentPrecedence
import Stencil.Proofs.JsonRoundTrip
import Stencil.Proofs.TextsAsTheyAre

/-!
# Failures that can be told

A failure of the library comes with facts, and a program is told them as JSON. That can be done unless
there is a value or a position among them that cannot be written. Nothing of that kind comes up while
a configuration is loaded, nor while a template is filled in, if the configuration is valid.

* `Error.Simple`: the facts of a failure can be written;
* `Config.failsWith_simple_compute`: the failures to load a configuration are simple;
* `RenderArguments.failsWith_simple_renderedIn`: so are those to fill in a template;
* `RenderArguments.exists_report_of_json`: a program reads back what it is told of a simple failure.
-/

namespace Stencil

/-! ## Simple failures -/

/-- The facts of a failure can be written: a value is a text, and a position has few enough digits. -/
def Error.Simple : Error → Prop
  | .emptyMarker _ v => ∃ s, v = .str s
  | .nestedStart p _ _ => p < 10 ^ Numeral.maxDigits
  | .unterminated p _ => p < 10 ^ Numeral.maxDigits
  | _ => True

/-- A failure of the library is simple. Others come without facts. -/
def Fault.Simple : Fault → Prop
  | .error e => e.Simple
  | _ => True

namespace Json

theorem plain_map_iff {n : Nat} {es : Mapping} : Plain (n + 1) (.map es) ↔
    (∀ e ∈ es, ∃ s, e.1 = .str s) ∧ es.Pairwise (fun e f => ¬e.1.same f.1) ∧
      ∀ e ∈ es, Plain n e.2 := by
  constructor
  · rintro (_ | _ | _ | _ | _ | ⟨hnames, hkeys, hvalues⟩)
    exact ⟨hnames, hkeys, hvalues⟩
  · rintro ⟨hnames, hkeys, hvalues⟩
    exact .map hnames hkeys hvalues

/-- A list of texts is plain. -/
theorem plain_texts {n : Nat} (ts : List String) : Plain (n + 1) (.list (ts.map .str)) :=
  .list (List.forall_mem_map.2 fun t _ => .str t)

end Json

/-- The facts that come with a simple failure are plain. -/
theorem Error.Simple.plain_context {e : Error} (h : e.Simple) (n : Nat) :
    Json.Plain (n + 2) (.map e.context) := by
  have hstr (s : String) : Json.Plain (n + 1) (.str s) := .str s
  have htexts (ts : List String) : Json.Plain (n + 1) (.list (ts.map .str)) := Json.plain_texts ts
  rw [Json.plain_map_iff]
  cases e with
  | emptyMarker field v =>
    obtain ⟨s, rfl⟩ := h
    simp [context, hstr]
  | nestedStart p start stop =>
    have hp : Json.Plain (n + 1) (.int p) := .int h
    simp [context, hstr, hp]
  | unterminated p stop =>
    have hp : Json.Plain (n + 1) (.int p) := .int h
    simp [context, hstr, hp]
  | unbound name => simp [context, Report.unbound, Mapping.putStr, Mapping.put, hstr]
  | _ => simp [context, hstr, htexts]

/-- What is told of a simple failure is plain. -/
theorem Fault.Simple.plain_told {f : Fault} (h : f.Simple) {object : Value} {message : String}
    (ht : f.told? = some (object, message)) : Json.Plain Json.maxNesting object := by
  cases f with
  | breach b => cases ht
  | error e =>
    cases ht
    have hcontext : Json.Plain 979 (.map e.context) := Error.Simple.plain_context h 977
    exact Json.plain_map_iff.2 ⟨by simp, by simp, by simp [hcontext, Json.Plain.str]⟩
  | file e =>
    cases ht
    exact Json.plain_map_iff.2 ⟨by simp, by simp, by simp [Json.Plain.str]⟩

/-! ## Computations with simple failures -/

/-- A breach is simple. -/
theorem failsWith_simple_mapError {α : Type} (x : Except Breach α) :
    FailsWith Fault.Simple (x.mapError Fault.breach) := by
  cases x with
  | error b => exact .error trivial
  | ok a => exact .ok a

namespace Files

theorem failsWith_simple_locate (fs : Files) (cwd : Place) (p : FilePath) :
    FailsWith Fault.Simple (fs.locate cwd p) := by
  unfold locate
  dsimp only
  split
  · exact .error trivial
  split
  · exact .error trivial
  · exact FailsWith.mapError (P := fun _ => True) (fun _ _ => trivial) fun _ _ => trivial

theorem failsWith_simple_readText (fs : Files) (cwd : Place) (p : FilePath) :
    FailsWith Fault.Simple (fs.readText cwd p) := by
  refine FailsWith.bind ?_ fun bytes _ => failsWith_simple_mapError _
  rw [read]
  refine (fs.failsWith_simple_locate cwd p).bind fun place _ => ?_
  split
  · exact .ok _
  · exact .error trivial
  · exact .error trivial

theorem failsWith_simple_writeText (fs : Files) (cwd : Place) (p : FilePath) (s : String) :
    FailsWith Fault.Simple (fs.writeText cwd p s) := by
  rw [writeText, write]
  refine (fs.failsWith_simple_locate cwd p).bind fun place _ => ?_
  split
  · exact .error trivial
  · exact .ok _
  · exact .error trivial
  · exact .error trivial

end Files

namespace Config

theorem failsWith_simple_readLayer (files : Files) (cwd : Place) (p : FilePath) :
    FailsWith Fault.Simple (readLayer files cwd p) := by
  refine (files.failsWith_simple_readText cwd p).bind fun text _ => ?_
  unfold layerOfText
  split
  · exact .ok _
  · exact .ok _
  · exact .error trivial
  · exact .error trivial
  · exact .error trivial

theorem failsWith_simple_addVariable (config : Mapping) (v : String × String) :
    FailsWith Fault.Simple (addVariable config v).result := by
  unfold addVariable
  dsimp only
  split
  · exact .ok _
  cases hpath : Variable.path (Variable.rest v.1) with
  | error e =>
    rw [Variable.path] at hpath
    split at hpath
    · cases hpath
      exact .error trivial
    · cases hpath
  | ok path =>
    rw [Logged.result_bind]
    refine (failsWith_simple_mapError _).bind fun value _ => ?_
    rw [Logged.result_bind]
    exact (FailsWith.ok ()).bind fun _ _ => failsWith_simple_mapError _

theorem failsWith_simple_validate (config : Value) : FailsWith Fault.Simple (validate config) := by
  unfold validate
  split
  · exact .error trivial
  · exact .ok _
  · exact .error trivial

/-- The failures to load a configuration are simple. -/
theorem failsWith_simple_compute (files : Files) (env : Variable.Environment) (bundled : String)
    (root : Place) (validated : Bool) :
    FailsWith Fault.Simple (compute files env bundled root validated).result := by
  rw [result_compute, result_merged]
  refine FailsWith.bind (.map ?_ _) fun config _ => ?_
  · exact .mapM (fun name => failsWith_simple_readLayer files root _) _
  · rw [result_override]
    refine (FailsWith.foldlM failsWith_simple_addVariable _ _).bind fun config _ => ?_
    cases validated with
    | false => exact .ok _
    | true => exact (failsWith_simple_validate _).bind fun _ _ => .ok _

end Config

/-- A command sees a configuration, or why it cannot be loaded, which is simple. -/
theorem Workspace.failsWith_simple_view (w : Workspace) (root : Option String) :
    FailsWith Fault.Simple (w.view root).config := by
  intro f hf
  rw [view, loadProject] at hf
  cases hfind : w.cache.find? (w.keyOf (w.rootOf (some (.ofPlace (w.projectRoot root)))) true) with
  | some config =>
    rw [load_of_find? hfind] at hf
    cases hf
  | none =>
    rw [load_result_of_find?_eq_none hfind] at hf
    exact Config.failsWith_simple_compute w.files w.env w.bundled _ true f hf

theorem Bindings.failsWith_simple_collect (files : Files) (cwd : Place) (path : Option String)
    (items : List String) : FailsWith Fault.Simple (collect files cwd path items) := by
  have hentry (path : String) (m : Mapping) (e : Key × Value) :
      FailsWith Fault.Simple (addEntry path m e) := by
    unfold addEntry
    split
    · exact .ok _
    · exact (failsWith_simple_mapError _).bind fun _ _ =>
        (failsWith_simple_mapError _).bind fun _ _ => .ok _
    · exact (failsWith_simple_mapError _).bind fun _ _ => .error trivial
  have htext (path text : String) : FailsWith Fault.Simple (ofText path text) := by
    unfold ofText
    split
    · exact .ok _
    · exact .foldlM (hentry path) _ _
    · exact .error trivial
    · exact .error trivial
    · exact .error trivial
  rw [collect]
  refine FailsWith.bind ?_ fun m _ => ?_
  · unfold load
    split
    · exact .ok _
    · exact .ok _
    · exact (files.failsWith_simple_readText cwd _).bind fun _ _ => htext _ _
  · refine FailsWith.mapError (P := Error.Simple) (.foldlM (fun m item => ?_) _ _) fun _ h => h
    unfold Assignment.bindings.bind
    split
    · exact .ok _
    · exact .error trivial

/-- The failures of a scan are simple, as long as the number of the characters can be written. -/
theorem failsWith_simple_scan (m : Markers) (strict : Bool) (bindings : Mapping) {text : String}
    (h : text.length < 10 ^ Numeral.maxDigits) :
    FailsWith Fault.Simple (scan m strict bindings text) := by
  intro f hf
  have hlt {p : Nat} (ho : OccursAt m.start.toList text.toList p) : p < 10 ^ Numeral.maxDigits := by
    have hle := ho.add_length_le (by simpa using m.start_ne)
    rw [String.length_toList] at hle
    exact (Nat.le_of_add_right_le hle).trans_lt h
  obtain ⟨p, hp, ⟨e, rfl, hr⟩ | ⟨rfl, -⟩⟩ := scanCounting_eq_error_iff.1 (scan_eq_error_iff.1 hf)
  · cases hr with
    | nested hs hn => exact hlt hn.1.2.1
    | unterminated hn hstop =>
      obtain ⟨d, -, -, -, ho⟩ := hp
      exact hlt ho
    | _ => exact trivial
  · exact trivial

/-- A scan that keeps the surrogates fails as one that does not. -/
theorem failsWith_simple_scanText (m : Markers) (strict : Bool) (bindings : Mapping) {text : String}
    (h : text.length < 10 ^ Numeral.maxDigits) :
    FailsWith Fault.Simple (scanText m strict bindings text) := by
  intro f hf
  have hscan : scan m strict bindings text = .error f := by
    rw [scan_eq_map_shown, hf]
    rfl
  exact failsWith_simple_scan m strict bindings h f hscan

namespace CommandLine.RenderArguments

variable (a : RenderArguments) (stdin : ByteArray) {v : View}

/-- The failures to find the markers are simple. -/
theorem failsWith_simple_markersIn (hconfig : FailsWith Fault.Simple v.config)
    (hvalid : ∀ config, v.config = .ok config → Config.Accepted config) :
    FailsWith Fault.Simple (a.markersIn v) := by
  have hempty (field u : String) : (Error.emptyMarker field (.str u)).Simple := ⟨u, rfl⟩
  have hmarker (field u : String) : FailsWith Error.Simple (Markers.marker field (.str u)) := by
    rw [Markers.marker, Value.shown?_str]
    dsimp only
    split
    · exact .ok _
    · exact .error (hempty field u)
  have hboth {s t : Value} (hs : FailsWith Error.Simple (Markers.marker "start" s))
      (ht : FailsWith Error.Simple (Markers.marker "end" t)) :
      FailsWith Fault.Simple ((Markers.ofValues s t).mapError Fault.error) :=
    (hs.bind fun _ _ => ht.bind fun _ _ => .ok _).mapError fun _ h => h
  have hmarkers (start stop : Option String) : FailsWith Fault.Simple (do
      let config ← v.config
      let s ← marker start config "start"
      let t ← marker stop config "end"
      (Markers.ofValues s t).mapError Fault.error) := by
    refine hconfig.bind fun config hc => ?_
    -- In an accepted configuration both markers are texts, and neither is empty.
    obtain ⟨⟨d, hd, -, ⟨s, hs, hsne⟩, t, ht, htne⟩, -, -⟩ := hvalid config hc
    have htext (given : Option String) {field : String} {u : CodeText} (hne : u ≠ .whole "")
        (hu : d.getStr? field = some (.ofText u)) :
        ∃ x, marker given config field = .ok x ∧ FailsWith Error.Simple (Markers.marker field x) := by
      cases given with
      | some u => exact ⟨_, rfl, hmarker field u⟩
      | none =>
        refine ⟨.ofText u, ?_, ?_⟩
        · rw [marker, Settings.marker, Settings.entryOf_eq hd, hu]
          rfl
        · rw [Markers.marker, Value.shown?_ofText]
          dsimp only
          rw [dif_pos (CodeText.shown_ne hne)]
          exact .ok _
    obtain ⟨s, hs, hsimple⟩ := htext start hsne hs
    obtain ⟨t, ht, hsimple'⟩ := htext stop htne ht
    rw [hs, ht]
    exact hboth hsimple hsimple'
  unfold markersIn
  split
  · exact hboth (hmarker _ _) (hmarker _ _)
  · exact hmarkers _ _

/-- The failures to fill in a template are simple. -/
theorem failsWith_simple_renderedIn (hconfig : FailsWith Fault.Simple v.config)
    (hvalid : ∀ config, v.config = .ok config → Config.Accepted config)
    (hlen : ∀ text, a.templateIn stdin v = .ok text → text.length < 10 ^ Numeral.maxDigits) :
    FailsWith Fault.Simple (a.renderedIn stdin v) := by
  have hstrict : FailsWith Fault.Simple (a.isStrictIn v) := by
    unfold isStrictIn
    split
    · exact .ok _
    · refine hconfig.bind fun config _ => .map ?_ _
      unfold Settings.entryOf
      split
      · exact .ok _
      · exact .error trivial
  have htemplate : FailsWith Fault.Simple (a.templateIn stdin v) := by
    unfold templateIn
    split
    · exact failsWith_simple_mapError _
    · exact v.files.failsWith_simple_readText v.cwd _
  simp only [renderedIn, inputsIn, bind_assoc, pure_bind]
  refine (a.failsWith_simple_markersIn hconfig hvalid).bind fun markers _ =>
    hstrict.bind fun strict _ => (Bindings.failsWith_simple_collect v.files v.cwd _ _).bind
      fun bindings _ => htemplate.bind fun text ht => ?_
  rw [Checked.result_runText]
  exact failsWith_simple_scanText markers strict bindings (hlen text ht)

/-! ## Reports that are read back -/

/-- A plain value has a JSON text, which is read back with the line break behind it. -/
theorem exists_document {object : Value} (h : Json.Plain Json.maxNesting object) :
    ∃ t, a.mode.jsonText object = .ok t ∧ Json.read (t ++ "\n").toList = .ok object := by
  obtain ⟨t, ht, hread⟩ := Json.exists_text Json.Layout.isBlank_twoBlanks h
  refine ⟨t, ht, ?_⟩
  rw [String.toList_append]
  exact hread [] _ nofun Json.isSpaces_lineBreak

variable {f : Fault} {object : Value} {message : String}

theorem report_of_told (h : f.told? = some (object, message)) :
    a.report f = ((if a.json then (a.mode.jsonText object).map Output.errorLine
      else .ok (.errorLine ("Error: " ++ message))).map (Ending.mk 1)).mapError Fault.breach := by
  cases f with
  | breach b => cases h
  | error e =>
    cases h
    simp only [report, Ending.ofFailure, Output.Mode.failure, if_true]
    rfl
  | file e =>
    cases h
    simp only [report, Ending.ofFileError, Ending.ofFailure, Output.Mode.failure, if_true]
    rfl

/-- A reader is told the message of a failure. -/
theorem report_of_told_of_not_json (hj : a.json = false) (h : f.told? = some (object, message)) :
    a.report f = .ok ⟨1, .errorLine ("Error: " ++ message)⟩ := by
  rw [a.report_of_told h, hj]
  rfl

/-- A program is told the object of a simple failure, which it reads back. -/
theorem exists_report_of_json (hj : a.json) (hf : f.Simple) (h : f.told? = some (object, message)) :
    ∃ t, a.report f = .ok ⟨1, .errorLine t⟩ ∧ Json.read (t ++ "\n").toList = .ok object := by
  obtain ⟨t, ht, hread⟩ := a.exists_document (hf.plain_told h)
  refine ⟨t, ?_, hread⟩
  rw [a.report_of_told h, if_pos hj, ht]
  rfl

end CommandLine.RenderArguments

end Stencil
