import Stencil.Proofs.Delivery
import Stencil.Session

/-!
# Runs of a session

A session is changed by operations in any order, and the workers of its scheduled scans run whenever
they get to. Its settings are those that were set last, and its table is the one it was made with,
overlaid by what was put. A scheduled scan is a snapshot: whatever happens before its worker runs, it
tells what a scan at once would have given when it was scheduled.

* `step_changes`, `table_after`, `field_after`: what one operation and a run of them set;
* `placeAfter`: where among the pending scans a scheduled one is after some operations;
* `pending_after`, `exists_work_of_placeAfter`: it stays there as it was scheduled until its worker
  runs;
* `Delivery.Tells`: what a delivery is meant to tell;
* `delivers_snapshot`: the whole of it, for every session and every run.
-/

namespace Stencil

/-! ## What is told -/

/-- A delivery tells an outcome to the callback that it is for, and to no other. The future holds the
    outcome, unless the callback that was told failed. -/
inductive Delivery.Tells (onDone onError : Callback) (d : Delivery) : Except Fault String → Prop
  | result {s : String} (done : d.done = [s]) (errors : d.errors = [])
      (future : onDone.Answers (.ok s) d.future) : Tells onDone onError d (.ok s)
  | failure {e : Error} (done : d.done = []) (errors : d.errors = [e])
      (future : onError.Answers (.error e) d.future) : Tells onDone onError d (.error e)
  /-- Of a value without a text only the future is required to tell. -/
  | breach {b : Breach} (future : d.future = .error b) : Tells onDone onError d (.error b)

variable {onDone onError : Callback}

/-- A worker delivers the outcome of its scan. -/
theorem Task.tells_run (t : Task) (hd : t.onDone.isCallable) (he : t.onError.isCallable) :
    t.run.Tells t.onDone t.onError t.request.run.result := by
  rcases t.request.run_cases with ⟨s, hs⟩ | ⟨e, hr, hp⟩ | ⟨hb, -⟩
  · rw [Task.run_of_ok hs, hs]
    exact .result rfl rfl (Callback.answers_answer hd _)
  · rw [Task.run_of_inParse hr hp, hr]
    exact .failure rfl rfl (Callback.answers_answer he _)
  · rw [Task.run_of_breach hb, hb]
    exact .breach rfl

/-- Two callbacks that can be called are enough to schedule a scan. -/
theorem Task.schedule_of_isCallable (hd : onDone.isCallable) (he : onError.isCallable)
    (r : Request) : schedule r onDone onError = .ok ⟨r, onDone, onError⟩ := by
  have hmissing : ¬(onDone = .missing ∨ onError = .missing) := by
    rintro (rfl | rfl)
    · cases hd
    · cases he
  simp [schedule, hmissing, hd, he]

namespace Session

namespace Action

/-- The entry that an operation puts into the table. -/
def entry? : Action → Option (Key × Value)
  | .put name value => name.toKey?.map (·, value)
  | _ => none

/-- The text that an operation sets. -/
def text? : Action → Option Value
  | .setText text => some text
  | _ => none

/-- The markers that an operation sets. -/
def markers? : Action → Option MarkersInput
  | .setMarkers markers => some markers
  | _ => none

/-- The mode that an operation sets. -/
def strict? : Action → Option Value
  | .setStrict strict => some strict
  | _ => none

/-- Where the scan at a place among the pending ones is after an operation, unless the operation
    is that its worker runs. -/
def placeAfter : Action → Nat → Option Nat
  | .work j, k => if j < k then some (k - 1) else if j = k then none else some k
  | _, k => some k

end Action

/-- A session after some operations. -/
def after (s : Session) (as : List Action) : Session := as.foldl (fun s a => (s.step a).1) s

/-- Where the scan at a place among the pending ones is after some operations, unless its worker
    has run. -/
def placeAfter (k : Nat) (as : List Action) : Option Nat := as.foldlM (fun k a => a.placeAfter k) k

variable {s : Session} {t : Task} {a : Action} {as : List Action} {k j : Nat}

@[simp]
theorem after_nil (s : Session) : s.after [] = s := rfl

@[simp]
theorem after_cons (s : Session) (a : Action) (as : List Action) :
    s.after (a :: as) = (s.step a).1.after as := rfl

/-! ## Settings -/

/-- The pending scans after an operation. -/
def pendingAfter (s : Session) : Action → List Task
  | .schedule onDone onError =>
    s.pending ++ (Task.schedule s.request onDone onError).toOption.toList
  | .work place => s.pending.eraseIdx place
  | _ => s.pending

/-- An operation changes the text, the markers, the mode, the table and the pending scans only as it
    says. -/
theorem step_changes (s : Session) (a : Action) :
    (s.step a).1.text = a.text?.getD s.text ∧ (s.step a).1.markers = a.markers?.getD s.markers ∧
      (s.step a).1.strict = a.strict?.getD s.strict ∧
      (s.step a).1.table = s.table.putAll a.entry?.toList ∧
      (s.step a).1.pending = s.pendingAfter a := by
  cases a with
  | put name value =>
    simp only [step, edited, Action.entry?]
    cases name.toKey? <;> exact ⟨rfl, rfl, rfl, rfl, rfl⟩
  | schedule onDone onError =>
    simp only [step, pendingAfter]
    cases Task.schedule s.request onDone onError with
    | ok t => exact ⟨rfl, rfl, rfl, rfl, rfl⟩
    | error e => exact ⟨rfl, rfl, rfl, rfl, (List.append_nil _).symm⟩
  | work place =>
    simp only [step, pendingAfter]
    split
    · exact ⟨rfl, rfl, rfl, rfl, rfl⟩
    · next hnone =>
      have hplace := List.getElem?_eq_none_iff.1 hnone
      exact ⟨rfl, rfl, rfl, rfl, (List.eraseIdx_of_length_le hplace).symm⟩
  | editCopy name value =>
    simp only [step]
    split <;> exact ⟨rfl, rfl, rfl, rfl, rfl⟩
  | editSource name value =>
    simp only [step]
    split
    · split <;> exact ⟨rfl, rfl, rfl, rfl, rfl⟩
    · exact ⟨rfl, rfl, rfl, rfl, rfl⟩
  | _ => exact ⟨rfl, rfl, rfl, rfl, rfl⟩

/-- What operations set one at a time is, after a run, what was set last. -/
theorem field_after {α : Type} {field : Session → α} {set? : Action → Option α}
    (hstep : ∀ s a, field (s.step a).1 = (set? a).getD (field s)) (s : Session)
    (as : List Action) : field (s.after as) = (as.filterMap set?).getLastD (field s) := by
  induction as generalizing s with
  | nil => rfl
  | cons a as ih =>
    rw [after_cons, ih, hstep]
    cases h : set? a with
    | none => rw [List.filterMap_cons_none h, Option.getD_none]
    | some v => rw [List.filterMap_cons_some h, Option.getD_some, List.getLastD_cons]

theorem text_after (s : Session) (as : List Action) :
    (s.after as).text = (as.filterMap Action.text?).getLastD s.text :=
  field_after (fun s a => (s.step_changes a).1) s as

theorem markers_after (s : Session) (as : List Action) :
    (s.after as).markers = (as.filterMap Action.markers?).getLastD s.markers :=
  field_after (fun s a => (s.step_changes a).2.1) s as

theorem strict_after (s : Session) (as : List Action) :
    (s.after as).strict = (as.filterMap Action.strict?).getLastD s.strict :=
  field_after (fun s a => (s.step_changes a).2.2.1) s as

/-- The table after a run is overlaid by what was put. -/
theorem table_after (s : Session) (as : List Action) :
    (s.after as).table = s.table.putAll (as.filterMap Action.entry?) := by
  induction as generalizing s with
  | nil => rfl
  | cons a as ih =>
    rw [after_cons, ih, (s.step_changes a).2.2.2.1]
    cases h : a.entry? with
    | none => rw [List.filterMap_cons_none h]; rfl
    | some e => rw [List.filterMap_cons_some h]; rfl

/-! ## Pending scans -/

/-- A pending scan is kept as it is by an operation that is not that its worker runs. -/
theorem pending_step (h : s.pending[k]? = some t) (hk : a.placeAfter k = some j) :
    (s.step a).1.pending[j]? = some t := by
  rw [(s.step_changes a).2.2.2.2]
  cases a with
  | work i =>
    simp only [Action.placeAfter] at hk
    simp only [pendingAfter, List.getElem?_eraseIdx]
    split at hk
    · -- A scan before it is gone, so it has moved up.
      next hi =>
      cases hk
      rw [if_neg (by omega), Nat.sub_add_cancel (by omega), h]
    · split at hk
      · cases hk
      · next hi hne =>
        cases hk
        rw [if_pos (by omega), h]
  | schedule onDone onError =>
    cases hk
    exact (List.getElem?_append_left (List.getElem?_eq_some_iff.1 h).1).trans h
  | _ =>
    cases hk
    exact h

/-- The only operation that ends a pending scan is that its worker runs. -/
theorem eq_work_of_placeAfter (h : a.placeAfter k = none) : a = .work k := by
  cases a with
  | work i =>
    simp only [Action.placeAfter] at h
    split at h
    · cases h
    split at h
    · next hi =>
      rw [hi]
    · cases h
  | _ => cases h

theorem placeAfter_cons (k : Nat) (a : Action) (as : List Action) :
    placeAfter k (a :: as) = (a.placeAfter k).bind fun j => placeAfter j as :=
  List.foldlM_cons

/-- A pending scan is kept as it is by any run in which its worker does not run. -/
theorem pending_after (h : s.pending[k]? = some t) (hk : placeAfter k as = some j) :
    (s.after as).pending[j]? = some t := by
  -- Every operation may move the scan, so its place is general in the induction.
  induction as generalizing s k with
  | nil =>
    cases hk
    exact h
  | cons a as ih =>
    rw [placeAfter_cons, Option.bind_eq_some_iff] at hk
    obtain ⟨i, hi, hk⟩ := hk
    exact ih (pending_step h hi) hk

/-- A scan that is not pending any more had its worker run. -/
theorem exists_work_of_placeAfter (h : placeAfter k as = none) :
    ∃ before j rest, as = before ++ .work j :: rest ∧ placeAfter k before = some j := by
  induction as generalizing k with
  | nil => cases h
  | cons a as ih =>
    cases hi : a.placeAfter k with
    | none =>
      obtain rfl := eq_work_of_placeAfter hi
      exact ⟨[], k, as, rfl, rfl⟩
    | some i =>
      rw [placeAfter_cons, hi, Option.bind_some] at h
      obtain ⟨before, j, rest, rfl, hj⟩ := ih h
      refine ⟨a :: before, j, rest, rfl, ?_⟩
      rw [placeAfter_cons, hi, Option.bind_some, hj]

/-- The worker of a pending scan delivers it. -/
theorem step_work (h : s.pending[k]? = some t) : (s.step (.work k)).2 = .delivered t.run := by
  simp only [step, h]

/-- A scan is scheduled behind those that are pending, with what the session has then. -/
theorem step_schedule (hd : onDone.isCallable) (he : onError.isCallable) (s : Session) :
    s.step (.schedule onDone onError) =
      ({ s with pending := s.pending ++ [⟨s.request, onDone, onError⟩] }, .scheduled) := by
  simp only [step, Task.schedule_of_isCallable hd he]

/-! ## The whole of it -/

variable {text strict bindings : Value} {markers : MarkersInput}

/-- After any run of a session:

    * its table is the mapping that it was made with, overlaid by what was put since, so that of the
      values put under a name the last one is found, and its text, markers and mode are those that
      were set last;
    * a scan at once and a look at the table leave the session as it is, and the scan has the outcome
      of the request for what the session has then;
    * a scan is scheduled with any two callbacks that can be called. Whatever operations come after
      it, as long as its worker has not run, the worker when it runs tells the outcome that a scan at
      once would have had when the scan was scheduled, and if the scan is not pending any more, the
      worker did so. -/
theorem delivers_snapshot {s₀ : Session} (h : start text markers bindings strict = .ok s₀)
    (as : List Action) :
    let s := s₀.after as
    let puts := as.filterMap Action.entry?
    let outcome := (Request.run ⟨s.text, s.markers, .map s.table, s.strict⟩).result
    (∃ initial, bindings.toMappingOrEmpty = .ok initial ∧ s.table = initial.putAll puts ∧
      ∀ k, s.table.get? k =
        ((puts.reverse.find? (·.1.same k)).map (·.2)).or (initial.get? k)) ∧
    s.text = (as.filterMap Action.text?).getLastD text ∧
    s.markers = (as.filterMap Action.markers?).getLastD markers ∧
    s.strict = (as.filterMap Action.strict?).getLastD strict ∧
    s.step .bindings = (s, .mapping s.table) ∧ s.step .parse = (s, .scanned outcome) ∧
    ∀ onDone onError : Callback, onDone.isCallable → onError.isCallable →
      (s.step (.schedule onDone onError)).2 = .scheduled ∧
      ∀ later : List Action,
        let s' := (s.step (.schedule onDone onError)).1
        (∀ j, placeAfter s.pending.length later = some j →
          ∃ d, ((s'.after later).step (.work j)).2 = .delivered d ∧
            d.Tells onDone onError outcome) ∧
        (placeAfter s.pending.length later = none →
          ∃ before j rest d, later = before ++ .work j :: rest ∧
            ((s'.after before).step (.work j)).2 = .delivered d ∧
            d.Tells onDone onError outcome) := by
  intro s puts outcome
  cases hi : bindings.toMappingOrEmpty with
  | error b =>
    rw [start, hi] at h
    cases h
  | ok initial =>
    rw [start, hi] at h
    cases h
    have htable : s.table = initial.putAll puts := table_after _ as
    refine ⟨⟨initial, rfl, htable, fun k => htable ▸ Mapping.get?_putAll initial puts k⟩,
      text_after _ as, markers_after _ as, strict_after _ as, rfl, rfl,
      fun onDone onError hd he => ?_⟩
    rw [step_schedule hd he]
    refine ⟨rfl, fun later => ?_⟩
    intro s'
    -- The scan stands behind all those that are pending, with what the session has now.
    have hlast : s'.pending[s.pending.length]? = some ⟨s.request, onDone, onError⟩ :=
      List.getElem?_concat_length
    have htells := Task.tells_run ⟨s.request, onDone, onError⟩ hd he
    refine ⟨fun j hj => ⟨_, step_work (pending_after hlast hj), htells⟩, fun hnone => ?_⟩
    obtain ⟨before, j, rest, rfl, hj⟩ := exists_work_of_placeAfter hnone
    exact ⟨before, j, rest, _, rfl, step_work (pending_after hlast hj), htells⟩

/-- A name is put twice, and the scan that was scheduled in between tells the first value. The worker
    of another scan runs before. -/
theorem delivers_value_of_schedule :
    let m : Markers := ⟨"*(", ")*", by decide, by decide⟩
    ∃ s₀, start (.str "*(a)*") (.markers m) (.map []) (.bool false) = .ok s₀ ∧
      let s := s₀.after [.schedule .returns .returns, .put (.str "a") (.str "1")]
      let s' := (s.step (.schedule .returns .raises)).1.after
        [.put (.str "a") (.str "2"), .setText (.str "-"), .work 0, .parse]
      ∃ d, (s'.step (.work 0)).2 = .delivered d ∧ d.done = ["1"] ∧ d.errors = [] ∧
        d.future = .ok "1" := by
  intro m
  have hs : start (.str "*(a)*") (.markers m) (.map []) (.bool false) =
      .ok ⟨.str "*(a)*", .markers m, .bool false, [], .map [], []⟩ := rfl
  refine ⟨_, hs, ?_⟩
  intro s s'
  obtain ⟨-, -, -, -, -, -, hsnap⟩ :=
    delivers_snapshot hs [.schedule .returns .returns, .put (.str "a") (.str "1")]
  obtain ⟨-, hsnap⟩ := hsnap .returns .raises rfl rfl
  obtain ⟨d, hd, ht⟩ := (hsnap
    [.put (.str "a") (.str "2"), .setText (.str "-"), .work 0, .parse]).1 0 (by decide)
  have ho : s.request.run.result = .ok "1" := by decide +kernel
  change d.Tells .returns .raises s.request.run.result at ht
  rw [ho] at ht
  cases ht with
  | result hdone herrors hfuture =>
    rcases hfuture with ⟨-, hf⟩ | ⟨f, hf, -⟩
    · exact ⟨d, hd, hdone, herrors, hf⟩
    · cases hf

/-- The callback that is told the result fails, and the future holds that failure and not the result
    that a scan at once gives. -/
theorem future_ne_parse_of_raises :
    let m : Markers := ⟨"*(", ")*", by decide, by decide⟩
    ∃ s₀, start (.str "*(a)*") (.markers m) (.map [(.str "a", .str "1")]) (.bool false) = .ok s₀ ∧
      s₀.step .parse = (s₀, .scanned (.ok "1")) ∧
      ∃ d, ((s₀.step (.schedule .raises .returns)).1.step (.work 0)).2 = .delivered d ∧
        d.done = ["1"] ∧ d.future ≠ .ok "1" := by
  intro m
  let s₀ : Session := ⟨.str "*(a)*", .markers m, .bool false, [(.str "a", .str "1")],
    .map [(.str "a", .str "1")], []⟩
  have ho : s₀.request.run.result = .ok "1" := by decide +kernel
  refine ⟨s₀, rfl, ?_, (Task.mk s₀.request .raises .returns).run, rfl, ?_⟩
  · simp only [step, ho]
  · rw [Task.run_of_ok ho]
    exact ⟨rfl, nofun⟩

end Session

end Stencil
