import Stencil.Proofs.CommandView
import Stencil.Proofs.JsonDocuments
import Stencil.Proofs.MergeAlgebra
import Stencil.Proofs.VariableFailures

/-!
# The whole configuration

A configuration has the sections that it has to have, and any others. Each form in which the whole of it
is shown makes demands of its own. A table has its sections in order, and some of them are called by
texts, so all of them have to be, and what stands in front of its lines has to have an encoding. In JSON
a key has to be the name of a member. YAML takes any key, but in no form is an integer of too many
digits shown.

* `Value.isSome_table?_iff`, `Yaml.exists_display_eq_ok_iff`: the values that can be shown in a table
  and in YAML;
* `Mapping.isSome_sorted?_iff`: the mappings that can be put in order;
* `ShowFormat.CanShow`, `ShowFormat.IsShown`: what can be shown in a form, and how;
* `Workspace.ColdRun`, `Workspace.Loads`: the runs and the configurations that this is said of;
* `ShowArguments.run_shows_whole_iff`: the command shows a configuration exactly if it can be shown.
-/

namespace Stencil

/-! ## Tables of values -/

namespace Value

variable {v : Value} {es : Mapping}

theorem isSome_rows?_iff {depth : Nat} : (table?.rows? depth es).isSome ↔
    ∀ e ∈ es, e.1.text?.isSome ∧ (e.2.table? (depth + 1)).isSome := by
  induction es with
  | nil => exact iff_of_true rfl (List.forall_mem_nil _)
  | cons e es ih =>
    obtain ⟨k, v⟩ := e
    rw [List.forall_mem_cons, ← ih, table?.rows?]
    cases v.table? (depth + 1) with
    | none => simp
    | some t => cases k.text? <;> simp

/-- A value can be shown in a table if no integer in it has too many digits. -/
theorem isSome_table?_iff (depth : Nat) : (v.table? depth).isSome ↔ v.IsShort := by
  induction v using Value.rec_on_parts generalizing depth with
  | scalar s =>
    cases s with
    | str s => exact iff_of_true rfl (.scalar trivial)
    | ragged t => exact iff_of_true rfl (.scalar trivial)
    | _ =>
      rw [table?, isSome_text?_iff, isSome_literal?_iff]
      all_goals exact nofun
  | list vs ih => exact isSome_literal?_iff
  | tuple vs ih => exact isSome_literal?_iff
  | map es ih =>
    rw [table?, Option.isSome_map, isSome_rows?_iff, IsShort, Every.map_iff, ← forall₂_and]
    exact forall₂_congr fun e he =>
      and_congr (Key.isSome_text?_iff.trans (Key.isSome_literal?_iff e.1)) (ih e he _)

end Value

/-! ## Documents of values -/

theorem Mapping.getD_sorted?_perm (m : Mapping) : ((sorted? m).getD m).Perm m := by
  cases h : sorted? m with
  | none => exact .rfl
  | some n => exact sorted?_perm h

namespace Yaml

namespace Node

variable {K : Key → Prop} {P : Scalar → Prop} {v : Value} {s : Scalar}

theorem orderedList_eq_map (vs : List Value) : ordered.orderedList vs = vs.map ordered := by
  induction vs with
  | nil => rfl
  | cons v vs ih => rw [ordered.orderedList, ih, List.map_cons]

theorem orderedEntries_eq_map (es : Mapping) :
    ordered.orderedEntries es = es.map fun e => (e.1, ordered e.2) := by
  induction es with
  | nil => rfl
  | cons e es ih => rw [ordered.orderedEntries, ih, List.map_cons]

/-- Setting mappings in order keeps the keys and the scalars. -/
theorem every_ordered_iff : (ordered v).Every K P ↔ v.Every K P := by
  induction v using Value.rec_on_parts with
  | scalar s => rw [ordered]
  | list vs ih =>
    rw [ordered, Value.Every.list_iff, Value.Every.list_iff, orderedList_eq_map, List.forall_mem_map]
    exact forall₂_congr ih
  | tuple vs ih =>
    rw [ordered, Value.Every.tuple_iff, Value.Every.tuple_iff, orderedList_eq_map, List.forall_mem_map]
    exact forall₂_congr ih
  | map es ih =>
    have hmem (e : Key × Value) := ((ordered.orderedEntries es).getD_sorted?_perm).mem_iff (a := e)
    rw [ordered, Value.Every.map_iff, Value.Every.map_iff]
    simp only [hmem]
    rw [orderedEntries_eq_map, List.forall_mem_map, List.forall_mem_map]
    exact and_congr_right' (forall₂_congr ih)

theorem exists_ofScalar_eq_ok_iff : (∃ n, ofScalar s = .ok n) ↔ s.IsShort := by
  cases s with
  | int i => exact exists_map_eq_ok_iff.trans Json.textOf_intText?_eq_ok_iff
  | _ => exact iff_of_true ⟨_, rfl⟩ trivial

theorem exists_ofKeys_eq_ok_iff {ks : List Key} :
    (∃ ns, ofKey.ofKeys ks = .ok ns) ↔ ∀ k ∈ ks, ∃ n, ofKey k = .ok n := by
  induction ks with
  | nil => exact iff_of_true ⟨[], rfl⟩ (List.forall_mem_nil _)
  | cons k ks ih => rw [ofKey.ofKeys, exists_bind_map_eq_ok_iff, ih, List.forall_mem_cons]

theorem exists_ofKey_eq_ok_iff (k : Key) : (∃ n, ofKey k = .ok n) ↔ k.Every Scalar.IsShort := by
  cases k with
  | scalar s => exact exists_ofScalar_eq_ok_iff.trans Key.Every.scalar_iff.symm
  | tuple ks =>
    rw [ofKey, exists_map_eq_ok_iff, exists_ofKeys_eq_ok_iff, Key.Every.tuple_iff]
    exact forall₂_congr fun k _ => exists_ofKey_eq_ok_iff k

theorem exists_ofItems_eq_ok_iff {vs : List Value} :
    (∃ ns, ofOrdered.ofItems vs = .ok ns) ↔ ∀ v ∈ vs, ∃ n, ofOrdered v = .ok n := by
  induction vs with
  | nil => exact iff_of_true ⟨[], rfl⟩ (List.forall_mem_nil _)
  | cons v vs ih => rw [ofOrdered.ofItems, exists_bind_map_eq_ok_iff, ih, List.forall_mem_cons]

theorem exists_ofEntries_eq_ok_iff {es : Mapping} : (∃ ns, ofOrdered.ofEntries es = .ok ns) ↔
    ∀ e ∈ es, (∃ n, ofKey e.1 = .ok n) ∧ ∃ n, ofOrdered e.2 = .ok n := by
  induction es with
  | nil => exact iff_of_true ⟨[], rfl⟩ (List.forall_mem_nil _)
  | cons e es ih =>
    obtain ⟨k, v⟩ := e
    rw [List.forall_mem_cons, ← ih, ofOrdered.ofEntries, and_assoc]
    constructor
    · rintro ⟨ns, h⟩
      obtain ⟨key, hkey, h⟩ := exists_of_bind_eq_ok h
      obtain ⟨value, hvalue, h⟩ := exists_of_bind_eq_ok h
      obtain ⟨ns, hns, -⟩ := exists_of_bind_eq_ok h
      exact ⟨⟨key, hkey⟩, ⟨value, hvalue⟩, ns, hns⟩
    · rintro ⟨⟨key, hkey⟩, ⟨value, hvalue⟩, ns, hns⟩
      rw [hkey, hvalue, hns]
      exact ⟨_, rfl⟩

theorem exists_ofOrdered_eq_ok_iff : (∃ n, ofOrdered v = .ok n) ↔ v.IsShort := by
  induction v using Value.rec_on_parts with
  | scalar s => exact exists_ofScalar_eq_ok_iff.trans Value.Every.scalar_iff.symm
  | list vs ih =>
    rw [ofOrdered, exists_map_eq_ok_iff, exists_ofItems_eq_ok_iff, Value.IsShort,
      Value.Every.list_iff]
    exact forall₂_congr ih
  | tuple vs ih =>
    rw [ofOrdered, exists_map_eq_ok_iff, exists_ofItems_eq_ok_iff, Value.IsShort,
      Value.Every.tuple_iff]
    exact forall₂_congr ih
  | map es ih =>
    rw [ofOrdered, exists_map_eq_ok_iff, exists_ofEntries_eq_ok_iff, Value.IsShort,
      Value.Every.map_iff, ← forall₂_and]
    exact forall₂_congr fun e he => and_congr (exists_ofKey_eq_ok_iff e.1) (ih e he)

end Node

/-- A value has a document if no integer in it has too many digits. -/
theorem exists_display_eq_ok_iff {v : Value} : (∃ t, display v = .ok t) ↔ v.IsShort := by
  rw [display, exists_map_eq_ok_iff, write, exists_map_eq_ok_iff, Node.ofValue,
    Node.exists_ofOrdered_eq_ok_iff, Value.IsShort, Node.every_ordered_iff]

end Yaml

/-! ## The order of sections -/

namespace Mapping

variable {m : Mapping} {k : Key} {v : Value} {s : String}

theorem str_mem_keys (h : m.getStr? s = some v) : .str s ∈ keys m := by
  by_contra hs
  have hnone : m.getStr? s = none := get?_eq_none_iff_keys.2 fun l hl hsame => by
    rw [Key.same_comm, Key.same_str_iff] at hsame
    exact hs (hsame ▸ hl)
  rw [hnone] at h
  cases h

/-- Texts can be compared with texts only. -/
theorem comparable_ofText_iff {s : CodeText} : comparable (.ofText s) k ↔ ∃ t, k = .ofText t := by
  have hbefore : ((Key.ofText s).before? k).isSome ↔ ∃ t, k = .ofText t := by
    cases k with
    | tuple ks => exact iff_of_false (by cases s <;> exact nofun) (by rintro ⟨t | t, h⟩ <;> cases h)
    | scalar c =>
      cases c with
      | str t => exact iff_of_true (by cases s <;> rfl) ⟨.whole t, rfl⟩
      | ragged t => exact iff_of_true (by cases s <;> rfl) ⟨.ragged t, rfl⟩
      | _ => exact iff_of_false (by cases s <;> exact nofun) (by rintro ⟨t | t, h⟩ <;> cases h)
  rw [comparable, Bool.or_eq_true, hbefore, Key.same_ofText_iff]
  exact or_iff_right_of_imp fun h => ⟨s, h⟩

/-- A mapping with a text among its keys can be put in order if all its keys are texts. -/
theorem isSome_sorted?_iff (h : .str s ∈ keys m) :
    (sorted? m).isSome ↔ ∀ k ∈ keys m, ∃ t, k = .ofText t := by
  rw [sorted?]
  split
  · next hall =>
    refine iff_of_true rfl fun k hk => ?_
    have hs := List.all_eq_true.1 hall _ h
    exact (comparable_ofText_iff (s := .whole s)).1 (List.all_eq_true.1 hs k hk)
  · next hall =>
    refine iff_of_false nofun fun hkeys => hall ?_
    refine List.all_eq_true.2 fun k hk => List.all_eq_true.2 fun l hl => ?_
    obtain ⟨t, rfl⟩ := hkeys k hk
    exact comparable_ofText_iff.2 (hkeys l hl)

end Mapping

/-! ## Sections -/

theorem Output.raw_append_raw (s t : String) : raw s ++ raw t = raw (s ++ t) := by
  change Output.mk (s ++ t) ("" ++ "") = raw (s ++ t)
  rw [String.append_empty]
  rfl

namespace CommandLine

/-- A section in a table: its name between brackets, what is shown of its value, and an empty line. -/
def sectionText (name table : String) : String := "[" ++ name ++ "]\n" ++ table ++ "\n\n"

/-- The text of an entry as a section in a table. -/
def IsSection (e : Key × Value) (text : String) : Prop :=
  ∃ name table, e.1 = .str name ∧ e.2.table? 1 = some table ∧ text = sectionText name table

/-- An entry can be a section in a table: nothing in front of a line of it has surrogates. -/
def IsPrintable (e : Key × Value) : Prop := (∃ name, e.1 = .str name) ∧ e.2.isPrintable

namespace ShowArguments

variable {a : ShowArguments} {sections config : Mapping} {o : Output} {s : String}

theorem sectionTable_str (name : String) {v : Value} (h : v.isPrintable) :
    sectionTable (.str name) v =
      (textOf (v.table? 1)).map fun table => .raw (sectionText name table) := by
  have hraw (table : String) : .line ("[" ++ name ++ "]") ++ .line table ++ .line "" =
      Output.raw (sectionText name table) := by
    simp only [Output.line, Output.raw_append_raw, sectionText, String.append_assoc]
    rfl
  have hname : (textOf (Key.str name).codeText?).bind CodeText.encodable = .ok name := rfl
  rw [sectionTable, hname, printedTable, h]
  cases v.table? 1 with
  | none => rfl
  | some table => exact congrArg Except.ok (hraw table)

/-- What has surrogates cannot be printed. -/
theorem exists_sectionTable_eq_error {e : Key × Value} (he : ∃ t, e.1 = .ofText t)
    (h : ¬IsPrintable e) : ∃ b, sectionTable e.1 e.2 = .error b := by
  obtain ⟨k, v⟩ := e
  obtain ⟨t | t, rfl⟩ := he
  · have hvalue : v.isPrintable = false := Bool.eq_false_iff.2 fun hv => h ⟨⟨t, rfl⟩, hv⟩
    have hname : (textOf (Key.str t).codeText?).bind CodeText.encodable = .ok t := rfl
    have hsection : sectionTable (.str t) v = (printedTable v).bind fun table =>
        .ok (.line ("[" ++ t ++ "]") ++ .line table ++ .line "") := by
      rw [sectionTable, hname]
      rfl
    have hprinted : ∃ b, printedTable v = .error b := by
      rw [printedTable, hvalue]
      cases v.table? 1 <;> exact ⟨_, rfl⟩
    obtain ⟨b, hb⟩ := hprinted
    refine ⟨b, ?_⟩
    change sectionTable (.str t) v = .error b
    rw [hsection, hb]
    rfl
  · exact ⟨.unencodable, rfl⟩

/-- A section can be shown if it can be printed and no integer in it has too many digits. -/
theorem sectionTable_cases {e : Key × Value} (he : ∃ t, e.1 = .ofText t) :
    ((IsPrintable e ∧ e.2.IsShort) ∧
        ∃ text, IsSection e text ∧ sectionTable e.1 e.2 = .ok (.raw text)) ∨
      ¬(IsPrintable e ∧ e.2.IsShort) ∧ ∃ b, sectionTable e.1 e.2 = .error b := by
  by_cases h : IsPrintable e
  · obtain ⟨⟨name, hname⟩, hvalue⟩ := id h
    rw [and_iff_right h, hname, sectionTable_str name hvalue, ← Value.isSome_table?_iff 1]
    cases htable : e.2.table? 1 with
    | none => exact .inr ⟨nofun, _, rfl⟩
    | some table => exact .inl ⟨rfl, _, ⟨name, table, hname, htable, rfl⟩, rfl⟩
  · exact .inr ⟨fun hshow => h hshow.1, exists_sectionTable_eq_error he h⟩

/-- The sections of a table are shown one after the other. -/
theorem foldlM_sectionTable_cases (hnames : ∀ e ∈ sections, ∃ t, e.1 = .ofText t) (front : String) :
    ((∀ e ∈ sections, IsPrintable e ∧ e.2.IsShort) ∧ ∃ texts, List.Forall₂ IsSection sections texts ∧
      sections.foldlM (fun o e => (o ++ ·) <$> sectionTable e.1 e.2) (.raw front) =
        .ok (.raw (front ++ String.join texts))) ∨
      (¬∀ e ∈ sections, IsPrintable e ∧ e.2.IsShort) ∧ ∃ b,
        sections.foldlM (fun o e => (o ++ ·) <$> sectionTable e.1 e.2) (.raw front) = .error b := by
  induction sections generalizing front with
  | nil =>
    refine .inl ⟨List.forall_mem_nil _, [], .nil, ?_⟩
    rw [String.join_nil, String.append_empty]
    rfl
  | cons e sections ih =>
    rw [List.forall_mem_cons] at hnames
    rw [List.foldlM_cons, List.forall_mem_cons]
    rcases sectionTable_cases hnames.1 with ⟨hshow, text, htext, hok⟩ | ⟨hnot, b, herror⟩
    · have hstep : (Output.raw front ++ ·) <$> sectionTable e.1 e.2 =
          .ok (.raw (front ++ text)) := by
        rw [hok, ← Output.raw_append_raw]
        rfl
      rw [hstep]
      refine (ih hnames.2 (front ++ text)).imp (fun h => ?_) fun h => ?_
      · obtain ⟨hrest, texts, htexts, h⟩ := h
        refine ⟨⟨hshow, hrest⟩, text :: texts, .cons htext htexts, ?_⟩
        rw [String.join_cons, ← String.append_assoc]
        exact h
      · exact ⟨fun hall => h.1 hall.2, h.2⟩
    · rw [herror]
      exact .inr ⟨fun hall => hnot hall.1, b, rfl⟩

end ShowArguments

/-! ## The three forms -/

/-- A configuration can be shown in a form. In the table all sections have to be called by texts and to
    be printable, and in JSON no key may be a date or a tuple. -/
def ShowFormat.CanShow (f : ShowFormat) (config : Mapping) : Prop :=
  (Value.map config).IsShort ∧
    match f with
    | .table => ∀ e ∈ config, IsPrintable e
    | .yaml => True
    | .json => (Value.map config).Every Key.IsName fun _ => True

/-- What is shown of a configuration in a form. In the table, each entry is a section. In JSON it is a
    document, of the standard if all numbers are finite. -/
def ShowFormat.IsShown (f : ShowFormat) (config : Mapping) (out : String) : Prop :=
  match f with
  | .table => ∃ sections texts, sections.Perm config ∧ List.Forall₂ IsSection sections texts ∧
      out = ShowArguments.tableHead.out ++ String.join texts
  | .yaml => ∃ text, Yaml.display (.map config) = .ok text ∧ out = text ++ "\n"
  | .json => (∃ text, Json.text (.indented "  ") (.map config) = .ok text ∧ out = text ++ "\n") ∧
      Json.IsDocument Json.extendedWords out.toList ∧
      ((Value.map config).Every (fun _ => True) Scalar.IsFinite →
        Json.IsDocument Json.standardWords out.toList)

namespace ShowArguments

variable {a : ShowArguments} {config : Mapping} {s : String}

theorem table_cases (h : .str s ∈ config.keys) :
    (ShowFormat.table.CanShow config ∧
        ∃ out, table config = .ok (.raw out) ∧ ShowFormat.table.IsShown config out) ∨
      ¬ShowFormat.table.CanShow config ∧ ∃ b, table config = .error b := by
  have hiff := Mapping.isSome_sorted?_iff h
  rw [Mapping.keys, List.forall_mem_map] at hiff
  rw [table]
  cases hsorted : Mapping.sorted? config with
  | none =>
    refine .inr ⟨fun hshow => ?_, _, rfl⟩
    have hsome := hiff.2 fun e he => (hshow.2 e he).1.elim fun name hname => ⟨.whole name, hname⟩
    rw [hsorted] at hsome
    cases hsome
  | some sections =>
    have hnames := hiff.1 (by rw [hsorted]; rfl)
    have hperm := Mapping.sorted?_perm hsorted
    have hshow : ShowFormat.table.CanShow config ↔ ∀ e ∈ sections, IsPrintable e ∧ e.2.IsShort := by
      have hkeys : ∀ e ∈ config, e.1.Every Scalar.IsShort := fun e he => by
        obtain ⟨t, ht⟩ := hnames e he
        exact ht ▸ .scalar (Scalar.isShort_ofText t)
      rw [ShowFormat.CanShow, Value.IsShort, Value.Every.map_iff, and_iff_right hkeys, and_comm,
        ← forall₂_and]
      simp only [hperm.mem_iff]
    have hcases := foldlM_sectionTable_cases (fun e he => hnames e (hperm.mem_iff.1 he)) tableHead.out
    rw [hshow]
    refine hcases.imp_left ?_
    rintro ⟨hall, texts, htexts, hok⟩
    exact ⟨hall, _, hok, sections, texts, hperm, htexts, rfl⟩

/-- A document can be written if no key is a date or a tuple, and no integer has too many digits. -/
theorem document_cases (hproper : Config.IsProper config) :
    (ShowFormat.json.CanShow config ∧
        ∃ out, a.mode.document (.map config) = .ok (.raw out) ∧ ShowFormat.json.IsShown config out) ∨
      ¬ShowFormat.json.CanShow config ∧ ∃ b, a.mode.document (.map config) = .error b := by
  have hdocument : a.mode.document (.map config) =
    (Json.text (.indented "  ") (.map config)).map .line := rfl
  have hshow : ShowFormat.json.CanShow config ↔
      ∃ text, Json.text (.indented "  ") (.map config) = .ok text := by
    rw [Json.text, Json.exists_write_eq_ok_iff]
    constructor
    · rintro ⟨hshort, hnames⟩
      exact (hnames.and hshort).imp (fun _ => id) fun _ => And.right
    · intro h
      exact ⟨h.imp (fun _ => And.right) fun _ => id, h.imp (fun _ => And.left) fun _ _ => trivial⟩
  rw [hshow, hdocument]
  cases htext : Json.text (.indented "  ") (.map config) with
  | error b => exact .inr ⟨by simp, b, rfl⟩
  | ok text =>
    have hline {words : List String} (h : Json.IsDocument words text.toList) :
        Json.IsDocument words (text ++ "\n").toList := by
      rw [String.toList_append]
      exact .spaced Json.isSpaces_nil h Json.isSpaces_lineBreak
    refine .inl ⟨⟨text, rfl⟩, text ++ "\n", rfl, ⟨text, htext, rfl⟩, hline ?_, fun hfinite => hline ?_⟩
    · exact Json.isDocument_of_write Json.Layout.isBlank_twoBlanks
        (fun w hw => List.mem_append_left _ hw)
        (hproper.imp (fun _ => id) fun _ h => ⟨h, .inr fun _ => id⟩) htext
    · exact Json.isDocument_of_write Json.Layout.isBlank_twoBlanks (fun _ => id)
        ((hproper.and hfinite).imp (fun _ _ => trivial) fun _ h => ⟨h.1, .inl h.2⟩) htext

/-- What is shown of a whole configuration, and which configurations cannot be shown. -/
theorem whole_cases (h : .str s ∈ config.keys) (hproper : Config.IsProper config) :
    (a.form.CanShow config ∧ ∃ out, a.whole config = .ok (.raw out) ∧ a.form.IsShown config out) ∨
      ¬a.form.CanShow config ∧ ∃ b, a.whole config = .error b := by
  rw [whole]
  cases a.form with
  | json => exact document_cases hproper
  | table => exact table_cases h
  | yaml =>
    have hshow : ShowFormat.yaml.CanShow config ↔ ∃ text, Yaml.display (.map config) = .ok text := by
      rw [ShowFormat.CanShow, and_iff_left trivial, Yaml.exists_display_eq_ok_iff]
    rw [hshow]
    cases htext : Yaml.display (.map config) with
    | error b => exact .inr ⟨by simp, b, rfl⟩
    | ok text => exact .inl ⟨⟨text, rfl⟩, text ++ "\n", rfl, text, htext, rfl⟩

end ShowArguments

end CommandLine

/-! ## The command -/

/-- A configuration that is loaded, after any run from a cold cache, was computed. -/
theorem Workspace.Cold.isProper_of_load {w : Workspace} (hw : w.Cold) (as : List Workspace.Action)
    {root : Option FilePath} {validated : Bool} {config : Mapping}
    (h : (Workspace.load root validated (w.after as)).2.result = .ok config) :
    Config.IsProper config := by
  cases hfind : (w.after as).cache.find? ((w.after as).keyOf ((w.after as).rootOf root) validated) with
  | none =>
    rw [Workspace.load_result_of_find?_eq_none hfind] at h
    exact Config.isProper_of_compute h
  | some c =>
    rw [Workspace.load_of_find? hfind] at h
    cases h
    obtain ⟨bs, -, root', validated', -, hcompute⟩ := Workspace.exists_origin hw.cache hfind
    exact Config.isProper_of_compute hcompute

/-! ### What this is said of -/

/-- How deep lists, tuples and mappings are nested in a value. -/
def Value.depth : Value → Nat
  | .scalar _ => 0
  | .list vs => listDepth vs + 1
  | .tuple vs => listDepth vs + 1
  | .map es => entriesDepth es + 1
where
  /-- How deep they are nested in the values of a list. -/
  listDepth : List Value → Nat
    | [] => 0
    | v :: vs => max v.depth (listDepth vs)
  /-- How deep they are nested in the values of a mapping. -/
  entriesDepth : Mapping → Nat
    | [] => 0
    | (_, v) :: es => max v.depth (entriesDepth es)

/-- How deep a configuration may be nested. Writing one that goes some thirty levels deeper takes more
    calls within each other than there may be. -/
def Config.maxDepth : Nat := 300

/-- A document has no alias, so that nothing in its value stands in two places or in itself. -/
def Yaml.HasNoAlias (text : String) : Prop :=
  ∀ name, .alias name ∉ Token.ofText text.toList

namespace Workspace

/-- A run from a cold cache, during which no layer of a configuration has an alias. -/
structure ColdRun (w : Workspace) (as : List Action) : Prop extends w.Cold where
  hasNoAlias (bs : List Action) : bs <+: as → ∀ root name text, Config.isLayerName name →
    (w.after bs).files.readText root (Config.layerPath root name) = .ok text → Yaml.HasNoAlias text

/-- A configuration is loaded for a project, and it is not nested too deeply to be written. -/
structure Loads (w : Workspace) (root : Option String) (config : Mapping) : Prop where
  result : (w.loadProject root).2.result = .ok config
  depth : (Value.map config).depth ≤ Config.maxDepth

/-- Where there are no files, there is no alias in any. -/
theorem coldRun_vacant : vacant.ColdRun [] where
  toCold := cold_vacant
  hasNoAlias bs hbs root name text _ hread := by
    obtain rfl := List.prefix_nil.1 hbs
    obtain ⟨content, hcontent, -⟩ := exists_of_bind_eq_ok hread
    obtain ⟨place, stamp, hfile⟩ := Files.exists_file_of_read hcontent
    exact absurd (Files.Sound.empty.stamp_lt hfile) (Nat.not_lt_zero stamp)

end Workspace

namespace CommandLine.ShowArguments

/-- After any run from a cold cache, a configuration that is loaded is shown as a whole exactly if no
    integer in it has too many digits, and in a table all its sections are called by texts and nothing
    in front of a line has surrogates, and in JSON no key is a date or a tuple. Otherwise the command
    breaks off. This is said of layers without aliases, and of configurations that are not nested too
    deeply. -/
theorem run_shows_whole_iff {w : Workspace} {as : List Workspace.Action} (hw : w.ColdRun as)
    {a : ShowArguments} (hkey : a.key.filter (· ≠ "") = none) {config : Mapping}
    (hload : (w.after as).Loads a.root config) :
    let result := (a.run (w.after as)).2.result
    (a.form.CanShow config →
        ∃ out, result = .ok (.done (.raw out)) ∧ a.form.IsShown config out) ∧
      (¬a.form.CanShow config → ∃ b, result = .error (.breach b)) := by
  intro result
  have hshown : a.shown config = (a.whole config).map .done := by rw [shown, hkey]
  have hresult : result = ((a.whole config).map .done).mapError Fault.breach :=
    hshown ▸ result_run hload.result
  -- The section for the markers, which is always there, is called by a text.
  obtain ⟨d, hd, -⟩ := ((hw.keepsValid_after as).accepted_of_view a.root hload.result).delimiters
  rw [hresult]
  rcases whole_cases (Mapping.str_mem_keys hd) (hw.isProper_of_load as hload.result) with
    ⟨hshow, out, hout, hspec⟩ | ⟨hshow, b, hb⟩
  · rw [hout]
    exact ⟨fun _ => ⟨out, rfl, hspec⟩, fun h => absurd hshow h⟩
  · rw [hb]
    exact ⟨fun h => absurd h hshow, fun _ => ⟨b, rfl⟩⟩

/-- Without files and variables, the settings of the bundled layer are shown in each form. -/
theorem run_shows_defaults :
    let w := Workspace.vacant
    let config := Mapping.merge [] Config.defaults
    let table := "textparser configuration\n========================================\n" ++
      "[delimiters]\n  start: '*('\n  end: ')*'\n\n" ++
      "[logging]\n  level: 'WARNING'\n\n[scan]\n  strict_syntax_check: False\n\n"
    w.Loads none config ∧ ShowFormat.table.CanShow config ∧
      ShowFormat.yaml.CanShow config ∧ ShowFormat.json.CanShow config ∧
      (({} : ShowArguments).run w).2.result = .ok (.done (.raw table)) ∧
      ShowFormat.table.IsShown config table ∧
      (∃ out, (run { format := .yaml } w).2.result = .ok (.done (.raw out)) ∧
        ShowFormat.yaml.IsShown config out) ∧
      ∃ out, (run { json := true } w).2.result = .ok (.done (.raw out)) ∧
        ShowFormat.json.IsShown config out := by
  intro w config table
  have hload : w.Loads none config := ⟨by decide +kernel, by decide +kernel⟩
  have hconfig : config = Config.defaults := by decide +kernel
  have hshort : (Value.map config).IsShort := Value.isSome_literal?_iff.1 (by decide +kernel)
  have hprintable : ∀ e ∈ config, IsPrintable e := by
    rw [hconfig]
    simp only [Config.defaults, List.forall_mem_cons]
    exact ⟨⟨⟨_, rfl⟩, rfl⟩, ⟨⟨_, rfl⟩, rfl⟩, ⟨⟨_, rfl⟩, rfl⟩, List.forall_mem_nil _⟩
  have hnames : (Value.map config).Every Key.IsName fun _ => True := by
    rw [hconfig]
    simp [Config.defaults, Value.Every.map_iff, Value.Every.scalar_iff, Key.IsName]
  have hrun (a : ShowArguments) (hkey : a.key = none) (hroot : a.root = none) :=
    run_shows_whole_iff (a := a) Workspace.coldRun_vacant (by rw [hkey]; rfl) (hroot ▸ hload)
  have hprinted : (({} : ShowArguments).run w).2.result = .ok (.done (.raw table)) := by decide +kernel
  obtain ⟨out, hout, hspec⟩ := (hrun {} rfl rfl).1 ⟨hshort, hprintable⟩
  obtain rfl : out = table := by
    have heq := Except.ok.inj (hout.symm.trans hprinted)
    injection heq with _ heq
    injection heq
  exact ⟨hload, ⟨hshort, hprintable⟩, ⟨hshort, trivial⟩, ⟨hshort, hnames⟩, hprinted, hspec,
    (hrun { format := .yaml } rfl rfl).1 ⟨hshort, trivial⟩,
    (hrun { json := true } rfl rfl).1 ⟨hshort, hnames⟩⟩

/-- A section called by a day is accepted. It keeps the command from showing a table or JSON. -/
theorem run_of_dated_section :
    let place : Place := [".textparser", "config"]
    let w : Workspace := { Workspace.vacant with
      files := ⟨[(place.dropLast, .directory), (place, .directory),
        (place ++ ["x.yaml"], .file "2001-01-01: a\n".toUTF8 0)], 1⟩ }
    (∃ config, (w.loadProject none).2.result = .ok config) ∧
      (({} : ShowArguments).run w).2.result = .error (.breach .unorderedKeys) ∧
      (run { json := true } w).2.result = .error (.breach .unwritableKey) := by
  intro place w
  have hload : ((w.loadProject none).2.result.toOption).isSome := by decide +kernel
  refine ⟨?_, by decide +kernel, by decide +kernel⟩
  cases hresult : (w.loadProject none).2.result with
  | error f =>
    rw [hresult] at hload
    cases hload
  | ok config => exact ⟨config, rfl⟩

end CommandLine.ShowArguments

end Stencil
