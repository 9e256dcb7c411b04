import Stencil.Config.Bundled
import Stencil.Proofs.FileHistory
import Stencil.Proofs.KeyPaths

/-!
# What a schema demands

A schema, rule by rule and part by part, comes to a list of demands on the values at some paths, each
of which can be looked at alone. The violations that are found are those of the demands that are not
met, one for each, and in the end they are in the order of their paths.

* `Demand.Met`: a value meets a demand;
* `Schema.requirements`: the demands of a schema, and where they are made;
* `Schema.violations_eq`: what is found are the requirements that are violated;
* `Schema.ordered_eq_ok`, `Schema.ordered_eq_error`: the violations in order, or why they cannot be
  told.
-/

namespace Stencil

/-! ## Failures of computations -/

/-- All failures of a computation are of a kind. -/
def FailsWith {ε α : Type} (P : ε → Prop) (x : Except ε α) : Prop := ∀ e, x = .error e → P e

namespace FailsWith

variable {ε ε' α β : Type} {P : ε → Prop} {Q : ε' → Prop} {x : Except ε α}

theorem ok (a : α) : FailsWith P (.ok a) := nofun

theorem error {e : ε} (h : P e) : FailsWith P (.error e : Except ε α) := by
  rintro _ ⟨⟩
  exact h

theorem bind {f : α → Except ε β} (hx : FailsWith P x) (hf : ∀ a, x = .ok a → FailsWith P (f a)) :
    FailsWith P (x >>= f) := by
  cases x with
  | error e => exact error (hx e rfl)
  | ok a => exact hf a rfl

theorem map (hx : FailsWith P x) (f : α → β) : FailsWith P (x.map f) := by
  cases x with
  | error e => exact error (hx e rfl)
  | ok a => exact ok _

theorem mapError (hx : FailsWith P x) {f : ε → ε'} (hf : ∀ e, P e → Q (f e)) :
    FailsWith Q (x.mapError f) := by
  cases x with
  | error e => exact error (hf e (hx e rfl))
  | ok a => exact ok a

theorem mapM {f : α → Except ε β} (hf : ∀ a, FailsWith P (f a)) (as : List α) :
    FailsWith P (as.mapM f) := by
  induction as with
  | nil => exact ok _
  | cons a as ih =>
    rw [List.mapM_cons]
    exact (hf a).bind fun _ _ => ih.bind fun _ _ => ok _

theorem foldlM {f : β → α → Except ε β} (hf : ∀ b a, FailsWith P (f b a)) (as : List α) (b : β) :
    FailsWith P (as.foldlM f b) := by
  induction as generalizing b with
  | nil => exact ok _
  | cons a as ih =>
    rw [List.foldlM_cons]
    exact (hf b a).bind fun b _ => ih b

end FailsWith

/-! ## Demands -/

/-- Going on from what stands at a path. -/
theorem Value.at?_append (v : Value) (p q : List String) :
    v.at? (p ++ q) = (v.at? p).bind (·.at? q) := by
  simp only [at?_eq_reach?, List.map_append, reach?_append]

/-- What a rule demands of a value. A rule that asks for several names makes a demand for each. -/
inductive Demand
  /-- The value is of a kind. -/
  | kind (k : Kind)
  /-- A mapping has no keys but some names. -/
  | only (names : List String)
  /-- A mapping has a name. -/
  | has (name : String)
  /-- A text has a least number of characters. -/
  | minLength (n : Nat)
  /-- The value is one of some texts. -/
  | choice (texts : List String)
  deriving DecidableEq

namespace Demand

/-- A value meets a demand. What is demanded of values of another kind is met. -/
def Met : Demand → Value → Prop
  | .kind k, v => k.admits v
  | .only names, .map m => ∀ e ∈ m, ∃ n ∈ names, e.1 = .str n
  | .has name, .map m => (Mapping.getStr? m name).isSome
  | .minLength n, .str s => n ≤ s.length
  | .minLength n, .ragged t => n ≤ t.codes.length
  | .choice texts, v => ∃ t ∈ texts, v = .str t
  | _, _ => True

instance (d : Demand) (v : Value) : Decidable (d.Met v) := by
  unfold Met
  split <;> infer_instance

/-- The message that a value does not meet a demand. -/
def message : Demand → Value → Except Breach String
  | .kind k, v => (Schema.literal v).map fun t => t ++ " is not of type " ++ Text.quoted k.word
  | .only names, .map m => (Schema.extras names m).map Schema.extrasMessage
  | .has name, _ => .ok (Text.quoted name ++ " is a required property")
  | .minLength n, .str s =>
    .ok (Text.quoted s ++ if n = 1 then " should be non-empty" else " is too short")
  | .minLength _, .ragged t => (Schema.literal (.ragged t)).map fun t => t ++ " is too short"
  | .choice texts, v => do
    return (← Schema.literal v) ++ " is not one of " ++ (← Schema.literal (.list (texts.map .str)))
  | _, _ => .ok ""

/-- The demands of a rule that does not go into parts, where `names` are those of the parts. -/
def ofRule (names : List String) : Rule → List Demand
  | .kind k => [.kind k]
  | .closed => [.only names]
  | .required required => required.map .has
  | .minLength n => [.minLength n]
  | .choice texts => [.choice texts]
  | _ => []

end Demand

/-- A demand on the value at a path. -/
structure Requirement where
  path : List String
  demand : Demand
  deriving DecidableEq

namespace Requirement

/-- There is a value at the path, and it does not meet the demand. -/
def Violated (r : Requirement) (v : Value) : Prop := ∃ x, v.at? r.path = some x ∧ ¬r.demand.Met x

/-- The violation of a requirement, if it is violated. -/
def violation? (r : Requirement) (v : Value) : Option (Except Breach Violation) :=
  (v.at? r.path).bind fun x =>
    if r.demand.Met x then none else some ((r.demand.message x).map fun t => ⟨r.path, t⟩)

theorem isSome_violation?_iff {r : Requirement} {v : Value} :
    (r.violation? v).isSome ↔ r.Violated v := by
  rw [violation?, Violated]
  cases v.at? r.path with
  | none => simp
  | some x => by_cases h : r.demand.Met x <;> simp [h]

end Requirement

namespace Schema

/-- The requirements of a list of rules on the value at a path. -/
def ruleRequirements (names path : List String) : List Rule → List Requirement
  | [] => []
  | .parts schemas :: rules => partRequirements path schemas ++ ruleRequirements names path rules
  | rule :: rules =>
    (Demand.ofRule names rule).map (⟨path, ·⟩) ++ ruleRequirements names path rules
where
  /-- The requirements of the schemas of some parts. -/
  partRequirements (path : List String) : List (String × List Rule) → List Requirement
    | [] => []
    | (name, rules) :: schemas =>
      ruleRequirements (partNames rules) (path ++ [name]) rules ++ partRequirements path schemas

/-- The requirements of a schema. -/
def requirements (s : Schema) : List Requirement := ruleRequirements s.partNames [] s

/-- The violations of some requirements, as long as they can be told. -/
def collect (rs : List Requirement) (v : Value) : Except Breach (List Violation) :=
  (rs.filterMap (·.violation? v)).mapM id

theorem collect_append (rs rs' : List Requirement) (v : Value) : collect (rs ++ rs') v = do
    return (← collect rs v) ++ (← collect rs' v) := by
  rw [collect, List.filterMap_append, List.mapM_append]
  rfl

variable {v x : Value} {path : List String}

/-- Where nothing is violated there is nothing to tell. -/
theorem collect_of_forall_not_violated {rs : List Requirement} (h : ∀ r ∈ rs, ¬r.Violated v) :
    collect rs v = .ok [] := by
  have hnil : rs.filterMap (·.violation? v) = [] := List.filterMap_eq_nil_iff.2 fun r hr => by
    rw [← Option.not_isSome_iff_eq_none, Requirement.isSome_violation?_iff]
    exact h r hr
  rw [collect, hnil]
  rfl

theorem collect_of_forall_met (h : v.at? path = some x) {ds : List Demand}
    (hmet : ∀ d ∈ ds, d.Met x) : collect (ds.map (⟨path, ·⟩)) v = .ok [] := by
  refine collect_of_forall_not_violated (List.forall_mem_map.2 fun d hd => ?_)
  rintro ⟨y, hy, hnot⟩
  obtain rfl := Option.some.inj (h.symm.trans hy)
  exact hnot (hmet d hd)

/-- One requirement has one violation, or none. -/
theorem collect_singleton (h : v.at? path = some x) (d : Demand) : collect [⟨path, d⟩] v =
    if d.Met x then .ok [] else (d.message x).map fun t => [⟨path, t⟩] := by
  rw [collect, List.filterMap_cons, Requirement.violation?, h, Option.bind_some]
  by_cases hmet : d.Met x
  · simp only [if_pos hmet]
    rfl
  · simp only [if_neg hmet]
    cases d.message x <;> simp [Except.map, bind, Except.bind, pure, Except.pure]

/-- The keys of a mapping that no part names. -/
theorem filter_keys_eq_nil_iff {names : List String} {m : Mapping} :
    (Mapping.keys m |>.filter fun k => names.all fun n => !(Key.str n).same k) = [] ↔
      (Demand.only names).Met (.map m) := by
  rw [List.filter_eq_nil_iff, Mapping.keys, List.forall_mem_map, Demand.Met]
  refine forall₂_congr fun e _ => ?_
  simp [Key.same_str_iff]

theorem extras_of_met {names : List String} {m : Mapping} (h : (Demand.only names).Met (.map m)) :
    extras names m = .ok [] := by
  rw [extras, filter_keys_eq_nil_iff.2 h]
  rfl

theorem ne_nil_of_extras_eq_ok {names : List String} {m : Mapping} {xs : List (String × String)}
    (hmet : ¬(Demand.only names).Met (.map m)) (h : extras names m = .ok xs) : xs ≠ [] := by
  rw [extras] at h
  cases hks : (Mapping.keys m |>.filter fun k => names.all fun n => !(Key.str n).same k) with
  | nil => exact absurd (filter_keys_eq_nil_iff.1 hks) hmet
  | cons k ks =>
    rw [hks, List.mapM_cons] at h
    obtain ⟨y, -, h⟩ := exists_of_bind_eq_ok h
    obtain ⟨ys, -, h⟩ := exists_of_bind_eq_ok h
    cases h
    exact List.cons_ne_nil y ys

/-- The violation of a rule that one demand comes to. -/
theorem collect_eq_violationUnless (h : v.at? path = some x) {d : Demand} {holds : Bool}
    {message : Except Breach String} (hholds : holds = true ↔ d.Met x)
    (hmessage : ¬d.Met x → d.message x = message) :
    collect [⟨path, d⟩] v = violationUnless holds path message := by
  rw [collect_singleton h, violationUnless]
  by_cases hmet : d.Met x
  · rw [if_pos hmet, if_pos (hholds.2 hmet)]
  · rw [if_neg hmet, if_neg (mt hholds.1 hmet), hmessage hmet]

/-- The names that a mapping has to have are missing one by one. -/
theorem collect_has {m : Mapping} (h : v.at? path = some (.map m)) (required : List String) :
    collect ((required.map .has).map (⟨path, ·⟩)) v =
      .ok ((required.filter fun n => !Mapping.has m (.str n)).map fun n =>
        ⟨path, Text.quoted n ++ " is a required property"⟩) := by
  induction required with
  | nil => rfl
  | cons n required ih =>
    rw [List.map_cons, List.map_cons, ← List.singleton_append, collect_append, ih,
      collect_singleton h, List.filter_cons]
    by_cases hhas : Mapping.has m (.str n)
    · rw [if_pos (by exact hhas), if_neg (by simpa using hhas)]
      rfl
    · rw [if_neg (by exact hhas), if_pos (by simpa using hhas)]
      rfl

/-- The violations of a rule are those of its demands. -/
theorem collect_ofRule (h : v.at? path = some x) (names : List String) (rule : Rule) :
    collect ((Demand.ofRule names rule).map (⟨path, ·⟩)) v = ownViolations names path x rule := by
  cases rule with
  | remark name text => rfl
  | parts schemas => rfl
  | kind k =>
    refine collect_eq_violationUnless h (d := .kind k) .rfl fun _ => ?_
    rw [Demand.message]
    cases literal x <;> rfl
  | closed =>
    cases x with
    | map m =>
      refine (collect_singleton h (.only names)).trans ?_
      rw [ownViolations]
      by_cases hmet : (Demand.only names).Met (.map m)
      · rw [if_pos hmet, extras_of_met hmet]
        rfl
      · rw [if_neg hmet, Demand.message]
        cases hxs : extras names m with
        | error b => rfl
        | ok xs =>
          have hne := ne_nil_of_extras_eq_ok hmet hxs
          change _ = violationUnless xs.isEmpty path (.ok (extrasMessage xs))
          rw [violationUnless, if_neg (by simpa using hne)]
          rfl
    | _ => exact (collect_singleton h (.only names)).trans (if_pos trivial)
  | required required =>
    cases x with
    | map m => exact collect_has h required
    | _ => exact collect_of_forall_met h (List.forall_mem_map.2 fun _ _ => trivial)
  | minLength n =>
    cases x with
    | scalar s =>
      cases s with
      | str s =>
        exact collect_eq_violationUnless h (d := .minLength n) decide_eq_true_iff fun _ => rfl
      | ragged t =>
        exact collect_eq_violationUnless h (d := .minLength n) decide_eq_true_iff fun _ => rfl
      | _ => exact (collect_singleton h (.minLength n)).trans (if_pos trivial)
    | _ => exact (collect_singleton h (.minLength n)).trans (if_pos trivial)
  | choice texts =>
    refine collect_eq_violationUnless h (d := .choice texts) ?_ fun _ => rfl
    simp [Demand.Met]

/-! ## Schemas -/

mutual

/-- The requirements of rules lie at the path or below it. -/
theorem prefix_of_mem_ruleRequirements {names path : List String} {r : Requirement} :
    ∀ {rules : List Rule}, r ∈ ruleRequirements names path rules → path <+: r.path
  | [], h => by
    rw [ruleRequirements] at h
    cases h
  | rule :: rules, h => by
    cases rule with
    | parts schemas =>
      rw [ruleRequirements, List.mem_append] at h
      exact h.elim prefix_of_mem_partRequirements prefix_of_mem_ruleRequirements
    | _ =>
      rw [ruleRequirements, List.mem_append] at h
      · refine h.elim (fun h => ?_) prefix_of_mem_ruleRequirements
        obtain ⟨d, -, rfl⟩ := List.mem_map.1 h
        exact List.prefix_refl _
      · nofun

theorem prefix_of_mem_partRequirements {path : List String} {r : Requirement} :
    ∀ {schemas : List (String × List Rule)}, r ∈ ruleRequirements.partRequirements path schemas →
      path <+: r.path
  | [], h => by
    rw [ruleRequirements.partRequirements] at h
    cases h
  | (name, rules) :: schemas, h => by
    rw [ruleRequirements.partRequirements, List.mem_append] at h
    exact h.elim (fun h => (List.prefix_append _ _).trans (prefix_of_mem_ruleRequirements h))
      prefix_of_mem_partRequirements

end

/-- Nothing is demanded of what is not there. -/
theorem collect_of_at?_eq_none (h : v.at? path = none) (names : List String) (rules : List Rule) :
    collect (ruleRequirements names path rules) v = .ok [] := by
  refine collect_of_forall_not_violated fun r hr => ?_
  obtain ⟨q, hq⟩ := prefix_of_mem_ruleRequirements hr
  rintro ⟨y, hy, -⟩
  rw [← hq, Value.at?_append, h] at hy
  cases hy

mutual

/-- The violations of rules are those of their requirements. -/
theorem collect_ruleRequirements {path : List String} {x : Value} (h : v.at? path = some x)
    (names : List String) (rules : List Rule) :
    collect (ruleRequirements names path rules) v = ruleViolations names path x rules := by
  match rules with
  | [] =>
    rw [ruleRequirements, ruleViolations]
    rfl
  | rule :: rules =>
    cases rule with
    | parts schemas =>
      rw [ruleRequirements, ruleViolations, collect_append, collect_partRequirements h,
        collect_ruleRequirements h]
    | _ =>
      rw [ruleRequirements, ruleViolations, collect_append, collect_ofRule h,
        collect_ruleRequirements h]
      · nofun
      · nofun

/-- So are those of the schemas of parts. -/
theorem collect_partRequirements {path : List String} {x : Value} (h : v.at? path = some x)
    (schemas : List (String × List Rule)) :
    collect (ruleRequirements.partRequirements path schemas) v =
      ruleViolations.partViolations path x schemas := by
  match schemas with
  | [] =>
    rw [ruleRequirements.partRequirements, ruleViolations.partViolations]
    rfl
  | (name, rules) :: schemas =>
    have hpart : v.at? (path ++ [name]) = x.at? [name] := by
      rw [Value.at?_append, h, Option.bind_some]
    rw [ruleRequirements.partRequirements, ruleViolations.partViolations, collect_append,
      collect_partRequirements h]
    cases hx : x.at? [name] with
    | none => rw [collect_of_at?_eq_none (hpart.trans hx)]
    | some part => rw [collect_ruleRequirements (hpart.trans hx)]

end

/-- What is found are the requirements that are violated, one after the other. -/
theorem violations_eq (s : Schema) (v : Value) : s.violations v = collect s.requirements v :=
  (collect_ruleRequirements (by cases v <;> rfl) _ _).symm

/-! ## The violations in order -/

/-- The violations that there are, as far as they can be told. -/
def found (s : Schema) (v : Value) : List (Except Breach Violation) :=
  s.requirements.filterMap (·.violation? v)

/-- A list of outcomes holds values only, or there is a failure in it. -/
theorem eq_map_ok_or_exists_error {ε α : Type} (xs : List (Except ε α)) :
    (∃ as : List α, xs = as.map .ok) ∨ ∃ e, .error e ∈ xs := by
  induction xs with
  | nil => exact .inl ⟨[], rfl⟩
  | cons x xs ih =>
    cases x with
    | error e => exact .inr ⟨e, List.mem_cons_self⟩
    | ok a =>
      refine ih.imp (fun ⟨as, h⟩ => ⟨a :: as, ?_⟩) fun ⟨e, h⟩ => ⟨e, List.mem_cons_of_mem _ h⟩
      rw [h, List.map_cons]

theorem mapM_id_map_ok {ε α : Type} (as : List α) :
    (as.map Except.ok).mapM id = (.ok as : Except ε (List α)) := by
  induction as with
  | nil => rfl
  | cons a as ih =>
    rw [List.map_cons, List.mapM_cons, ih]
    rfl

/-- One failure is that of the whole. -/
theorem mapM_id_of_error_mem {ε α : Type} {e : ε} {xs : List (Except ε α)} (h : .error e ∈ xs)
    (hall : ∀ e', .error e' ∈ xs → e' = e) : xs.mapM id = .error e := by
  induction xs with
  | nil => cases h
  | cons x xs ih =>
    rw [List.mapM_cons]
    cases x with
    | error e' =>
      rw [hall e' List.mem_cons_self]
      rfl
    | ok a =>
      have hmem := (List.mem_cons.1 h).resolve_left nofun
      rw [id, ih hmem fun e' he' => hall e' (List.mem_cons_of_mem _ he')]
      rfl

theorem failsWith_textOf (t : Option String) : FailsWith (· = .longInteger) (textOf t) := by
  cases t with
  | none => exact .error rfl
  | some t => exact .ok t

/-- A message cannot be made only because an integer has too many digits. -/
theorem failsWith_message (d : Demand) (x : Value) :
    FailsWith (· = .longInteger) (d.message x) := by
  unfold Demand.message
  split
  · exact (failsWith_textOf _).map _
  · refine FailsWith.map (.mapM (fun k => ?_) _) _
    exact (failsWith_textOf _).bind fun _ _ => (failsWith_textOf _).bind fun _ _ => .ok _
  · exact .ok _
  · exact .ok _
  · exact (failsWith_textOf _).map _
  · exact (failsWith_textOf _).bind fun _ _ => (failsWith_textOf _).bind fun _ _ => .ok _
  · exact .ok _

theorem eq_longInteger_of_mem_found {s : Schema} {b : Breach} (h : .error b ∈ s.found v) :
    b = .longInteger := by
  obtain ⟨r, -, hr⟩ := List.mem_filterMap.1 h
  rw [Requirement.violation?] at hr
  obtain ⟨x, -, hr⟩ := Option.bind_eq_some_iff.1 hr
  split at hr
  · cases hr
  · exact ((failsWith_message r.demand x).map _) b (Option.some.inj hr)

/-- The violations that can all be told are told in the order of their paths. -/
theorem ordered_eq_ok {s : Schema} {vs : List Violation} (h : s.found v = vs.map .ok) :
    s.ordered v = .ok (sort (fun a b => Path.notAfter a.path b.path) vs) := by
  have hcollect : collect s.requirements v = .ok vs := by
    rw [collect, ← found, h, mapM_id_map_ok]
  rw [ordered, violations_eq, hcollect, Except.map]

/-- If one of them cannot be told, none is. -/
theorem ordered_eq_error {s : Schema} {b : Breach} (h : .error b ∈ s.found v) :
    s.ordered v = .error .longInteger := by
  obtain rfl := eq_longInteger_of_mem_found h
  have hcollect : collect s.requirements v = .error .longInteger :=
    mapM_id_of_error_mem h fun _ => eq_longInteger_of_mem_found
  rw [ordered, violations_eq, hcollect, Except.map]

end Schema

/-! ## Paths in order -/

namespace Path

theorem notAfter_total (p q : List String) : notAfter p q || notAfter q p := by
  induction p generalizing q with
  | nil => rfl
  | cons s p ih =>
    cases q with
    | nil => rfl
    | cons t q =>
      simp only [notAfter, Bool.or_eq_true, Bool.and_eq_true, decide_eq_true_eq, beq_iff_eq] at ih ⊢
      by_cases hlt : s < t
      · exact .inl (.inl hlt)
      by_cases hgt : t < s
      · exact .inr (.inl hgt)
      obtain rfl := String.le_antisymm hgt hlt
      exact (ih q).imp (fun h => .inr ⟨rfl, h⟩) fun h => .inr ⟨rfl, h⟩

theorem notAfter_trans {p q r : List String} (h : notAfter p q) (h' : notAfter q r) :
    notAfter p r := by
  induction p generalizing q r with
  | nil => rfl
  | cons s p ih =>
    cases q with
    | nil => cases h
    | cons t q =>
      cases r with
      | nil => cases h'
      | cons u r =>
        simp only [notAfter, Bool.or_eq_true, Bool.and_eq_true, decide_eq_true_eq, beq_iff_eq]
          at h h' ih ⊢
        rcases h with h | ⟨rfl, h⟩ <;> rcases h' with h' | ⟨rfl, h'⟩
        · exact .inl (String.lt_trans h h')
        · exact .inl h
        · exact .inl h'
        · exact .inr ⟨rfl, ih h h'⟩

end Path

end Stencil
