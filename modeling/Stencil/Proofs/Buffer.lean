import Mathlib.Logic.Function.Iterate
import Stencil.Proofs.Failure

/-!
# Scans over a buffer

The scan of a text as a loop over positions. The loop works on a buffer, which is the text with one
sentinel behind it, and sees the buffer only through `read`, which keeps account of what was read. A
marker is compared only where it ends before the end of the buffer.

* `Buffer.step`: one turn of the loop;
* `Buffer.within_iterate_start`: no turn reads beyond the text, so the sentinel is never read;
* `Buffer.exists_iterate`: the loop ends, with the result of the scan;
* `fillable_iff_divided`: the texts that can be filled in, and what they are filled in with.
-/

namespace Stencil

namespace Buffer

/-- The character at the end of a buffer. -/
def sentinel : Char := '\n'

/-- The buffer of a text. -/
def ofText (text : List Char) : List Char := text ++ [sentinel]

/-- A result, with the stretches of the buffer that were read for it. -/
structure Reading (α : Type) where
  result : α
  spans : List (Nat × Nat)

instance : Monad Reading where
  pure a := ⟨a, []⟩
  bind x f := ⟨(f x.result).result, x.spans ++ (f x.result).spans⟩

/-- All that was read for a result ends at `n` or before. -/
def Reading.Within {α : Type} (x : Reading α) (n : Nat) : Prop := ∀ r ∈ x.spans, r.2 ≤ n

/-- The `n` characters of a buffer from `p` on. -/
def read (buffer : List Char) (p n : Nat) : Reading (List Char) :=
  ⟨(buffer.drop p).take n, [(p, p + n)]⟩

/-- Whether a marker stands at `p`, for a marker that ends before the end of the buffer. -/
def markerAt (buffer marker : List Char) (p : Nat) : Reading Bool :=
  if p + marker.length < buffer.length then do
    let found ← read buffer p marker.length
    return found = marker
  else return false

/-- Where the loop is. -/
inductive State
  /-- At `p`, outside of placeholders, after putting out `out` with `n` placeholders in it. -/
  | outside (p : Nat) (out : List Char) (n : Nat)
  /-- At `p`, in the placeholder that opened at `opened`. -/
  | inside (opened p : Nat) (out : List Char) (n : Nat)
  /-- At the end. -/
  | finished (result : Except Fault (List Char × Nat))

/-- Before the first turn. -/
def start : State := .outside 0 [] 0

/-- One turn of the loop. -/
def step (c : Checked) : State → Reading State
  | .outside p out n =>
    if p < c.text.length then do
      if ← markerAt (ofText c.text.toList) c.markers.start.toList p then
        return .inside p (p + c.markers.start.length) out n
      else
        let char ← read (ofText c.text.toList) p 1
        return .outside (p + 1) (out ++ char) n
    else return .finished (.ok (out, n))
  | .inside opened p out n =>
    if p + c.markers.stop.length < (ofText c.text.toList).length then do
      let found ← read (ofText c.text.toList) p c.markers.stop.length
      if found = c.markers.stop.toList then
        let first := opened + c.markers.start.length
        let body ← read (ofText c.text.toList) first (p - first)
        match resolveBody c.bindings body with
        | .error f => return .finished (.error f)
        | .ok value => return .outside (p + c.markers.stop.length) (out ++ value) (n + 1)
      else
        let nested ← if c.strict then markerAt (ofText c.text.toList) c.markers.start.toList p
          else pure false
        if nested then
          return .finished (.error (Error.nestedStart p c.markers.start c.markers.stop))
        else return .inside opened (p + 1) out n
    else return .finished (.error (Error.unterminated opened c.markers.stop))
  | .finished result => return .finished result

/-- The state after one turn. -/
def next (c : Checked) (s : State) : State := (step c s).result

/-! ## What is read -/

theorem length_ofText (text : List Char) : (ofText text).length = text.length + 1 := by
  simp [ofText]

section Reading

variable {α β : Type}

theorem result_bind (x : Reading α) (f : α → Reading β) :
    (x >>= f).result = (f x.result).result := rfl

theorem Reading.Within.pure (a : α) (n : Nat) : (pure a : Reading α).Within n :=
  fun _ hr => absurd hr List.not_mem_nil

theorem Reading.Within.bind {x : Reading α} {f : α → Reading β} {n : Nat} (hx : x.Within n)
    (hf : (f x.result).Within n) : (x >>= f).Within n :=
  fun r hr => (List.mem_append.1 hr).elim (hx r) (hf r)

end Reading

variable {text marker : List Char} {p n : Nat}

/-- A stretch of the text is read as it is. -/
theorem result_read (h : p + n ≤ text.length) :
    (read (ofText text) p n).result = (text.drop p).take n := by
  rw [read, ofText, List.drop_append_of_le_length (by omega),
    List.take_append_of_le_length (by rw [List.length_drop]; omega)]

theorem within_read (h : p + n ≤ text.length) :
    (read (ofText text) p n).Within text.length := by
  intro r hr
  rw [read, List.mem_singleton] at hr
  rw [hr]
  exact h

/-- The characters at `p` are those of a marker that stands there. -/
theorem take_drop_eq_iff : (text.drop p).take marker.length = marker ↔ OccursAt marker text p := by
  rw [OccursAt, List.prefix_iff_eq_take, eq_comm]

/-- A marker is found where it stands in the text as a whole. -/
theorem result_markerAt (hm : marker ≠ []) (p : Nat) :
    (markerAt (ofText text) marker p).result = decide (OccursAt marker text p) := by
  rw [markerAt, length_ofText]
  split
  · next h =>
    rw [result_bind, result_read (by omega)]
    exact decide_eq_decide.2 take_drop_eq_iff
  · next h =>
    rw [eq_comm]
    refine decide_eq_false fun ho => ?_
    have := ho.add_length_le hm
    omega

theorem within_markerAt : (markerAt (ofText text) marker p).Within text.length := by
  rw [markerAt, length_ofText]
  split
  · next h => exact (within_read (by omega)).bind (.pure _ _)
  · exact .pure _ _

/-! ## Turns -/

/-- The body that was opened starts before the position, which lies in the text. -/
def State.Valid (c : Checked) : State → Prop
  | .outside p _ _ => p ≤ c.text.toList.length
  | .inside opened p _ _ => opened + c.markers.start.length ≤ p ∧ p ≤ c.text.toList.length
  | .finished _ => True

/-- The part of the text from `a` to `b`. -/
def slice (text : List Char) (a b : Nat) : List Char := (text.drop a).take (b - a)

theorem slice_succ {a b : Nat} (hab : a ≤ b) (hb : b < text.length) :
    slice text a (b + 1) = slice text a b ++ [text[b]] := by
  have hlt : b - a < (text.drop a).length := by
    rw [List.length_drop]
    omega
  rw [slice, slice, Nat.succ_sub hab, List.take_succ_eq_append_getElem hlt]
  simp [Nat.add_sub_cancel' hab]

/-- What one turn of the loop does, told by where the markers stand in the text. -/
inductive Turn (c : Checked) : State → State → Prop
  | copies {p : Nat} {out : List Char} {n : Nat} (hp : p < c.text.toList.length)
    (h : ¬OccursAt c.markers.start.toList c.text.toList p) :
    Turn c (.outside p out n) (.outside (p + 1) (out ++ [c.text.toList[p]]) n)
  | opens {p : Nat} {out : List Char} {n : Nat}
    (h : OccursAt c.markers.start.toList c.text.toList p) :
    Turn c (.outside p out n) (.inside p (p + c.markers.start.length) out n)
  | ends {p : Nat} {out : List Char} {n : Nat} (hp : p = c.text.toList.length) :
    Turn c (.outside p out n) (.finished (.ok (out, n)))
  | replaces {opened p : Nat} {out value : List Char} {n : Nat}
    (h : OccursAt c.markers.stop.toList c.text.toList p)
    (hv : resolveBody c.bindings (slice c.text.toList (opened + c.markers.start.length) p) =
      .ok value) :
    Turn c (.inside opened p out n) (.outside (p + c.markers.stop.length) (out ++ value) (n + 1))
  | refuses {opened p : Nat} {out : List Char} {n : Nat} {f : Fault}
    (h : OccursAt c.markers.stop.toList c.text.toList p)
    (hv : resolveBody c.bindings (slice c.text.toList (opened + c.markers.start.length) p) =
      .error f) :
    Turn c (.inside opened p out n) (.finished (.error f))
  | nested {opened p : Nat} {out : List Char} {n : Nat}
    (hfit : p + c.markers.stop.length ≤ c.text.toList.length)
    (h : ¬OccursAt c.markers.stop.toList c.text.toList p) (hs : c.strict = true)
    (hn : OccursAt c.markers.start.toList c.text.toList p) :
    Turn c (.inside opened p out n)
      (.finished (.error (Error.nestedStart p c.markers.start c.markers.stop)))
  | goesOn {opened p : Nat} {out : List Char} {n : Nat}
    (hfit : p + c.markers.stop.length ≤ c.text.toList.length)
    (h : ¬OccursAt c.markers.stop.toList c.text.toList p)
    (hn : c.strict = true → ¬OccursAt c.markers.start.toList c.text.toList p) :
    Turn c (.inside opened p out n) (.inside opened (p + 1) out n)
  | unterminated {opened p : Nat} {out : List Char} {n : Nat}
    (hfit : c.text.toList.length < p + c.markers.stop.length) :
    Turn c (.inside opened p out n)
      (.finished (.error (Error.unterminated opened c.markers.stop)))
  | stays {result : Except Fault (List Char × Nat)} : Turn c (.finished result) (.finished result)

variable {c : Checked} {s t : State}

/-- A computation of a state does the turn from `s`, and reads no further than the text. -/
def Does (c : Checked) (s : State) (x : Reading State) : Prop :=
  Turn c s x.result ∧ x.Within c.text.toList.length

theorem Does.pure (h : Turn c s t) : Does c s (pure t) := ⟨h, .pure _ _⟩

theorem Does.bind {α : Type} {x : Reading α} {f : α → Reading State}
    (hx : x.Within c.text.toList.length) (hf : Does c s (f x.result)) : Does c s (x >>= f) :=
  ⟨hf.1, hx.bind hf.2⟩

theorem does_step_outside {p : Nat} {out : List Char} {n : Nat} (hp : p ≤ c.text.toList.length) :
    Does c (.outside p out n) (step c (.outside p out n)) := by
  rw [step, ← String.length_toList]
  by_cases hlt : p < c.text.toList.length
  · rw [if_pos hlt]
    refine .bind within_markerAt ?_
    rw [result_markerAt (Layout.start_ne_nil c.markers)]
    by_cases ho : OccursAt c.markers.start.toList c.text.toList p
    · rw [if_pos (decide_eq_true ho)]
      exact .pure (.opens ho)
    · rw [if_neg (by simpa using ho)]
      refine .bind (within_read hlt) (.pure ?_)
      rw [result_read hlt, List.drop_eq_getElem_cons hlt]
      exact .copies hlt ho
  · rw [if_neg hlt]
    exact .pure (.ends (by omega))

theorem does_step_inside {opened p : Nat} {out : List Char} {n : Nat}
    (hopened : opened + c.markers.start.length ≤ p) :
    Does c (.inside opened p out n) (step c (.inside opened p out n)) := by
  rw [step, length_ofText]
  by_cases hfit : p + c.markers.stop.length ≤ c.text.toList.length
  · rw [if_pos (by omega)]
    refine .bind (within_read hfit) ?_
    rw [result_read hfit]
    by_cases hs : OccursAt c.markers.stop.toList c.text.toList p
    · rw [if_pos (by rwa [← String.length_toList, take_drop_eq_iff])]
      have hbody : opened + c.markers.start.length + (p - (opened + c.markers.start.length)) ≤
          c.text.toList.length := by omega
      refine .bind (within_read hbody) ?_
      rw [result_read hbody]
      cases hv : resolveBody c.bindings (slice c.text.toList (opened + c.markers.start.length) p) with
      | ok value =>
        rw [slice] at hv
        rw [hv]
        exact .pure (.replaces hs hv)
      | error f =>
        rw [slice] at hv
        rw [hv]
        exact .pure (.refuses hs hv)
    · rw [if_neg (by rwa [← String.length_toList, take_drop_eq_iff])]
      cases hstrict : c.strict with
      | false =>
        refine .bind (.pure _ _) (.pure (.goesOn hfit hs fun h => ?_))
        rw [hstrict] at h
        cases h
      | true =>
        refine .bind within_markerAt ?_
        rw [result_markerAt (Layout.start_ne_nil c.markers)]
        dsimp only
        by_cases hn : OccursAt c.markers.start.toList c.text.toList p
        · rw [if_pos (decide_eq_true hn)]
          exact .pure (.nested hfit hs hstrict hn)
        · rw [if_neg (by simpa using hn)]
          exact .pure (.goesOn hfit hs fun _ => hn)
  · rw [if_neg (by omega)]
    exact .pure (.unterminated (by omega))

/-- The loop does the turns that are told by where the markers stand, and in none of them it reads
    further than the text. -/
theorem does_step (hs : s.Valid c) : Does c s (step c s) := by
  cases s with
  | outside p out n => exact does_step_outside hs
  | inside opened p out n => exact does_step_inside hs.1
  | finished result => exact .pure .stays

/-! ## The whole loop -/

theorem Turn.valid (h : Turn c s t) (hs : s.Valid c) : t.Valid c := by
  cases h with
  | copies hp h => exact hp
  | opens h =>
    have hlen := h.add_length_le (Layout.start_ne_nil c.markers)
    rw [String.length_toList] at hlen
    exact ⟨le_rfl, hlen⟩
  | ends hp => trivial
  | replaces h hv =>
    have hlen := h.add_length_le (Layout.stop_ne_nil c.markers)
    rw [String.length_toList] at hlen
    exact hlen
  | refuses h hv => trivial
  | nested hfit h hs hn => trivial
  | goesOn hfit h hn =>
    have hpos := Layout.stop_length_pos c.markers
    exact ⟨Nat.le_succ_of_le hs.1, by omega⟩
  | unterminated hfit => trivial
  | stays => trivial

/-- How many positions are left. -/
def State.left (c : Checked) : State → Nat
  | .outside p _ _ => c.text.toList.length + 1 - p
  | .inside _ p _ _ => c.text.toList.length + 1 - p
  | .finished _ => 0

/-- Every turn before the end goes to a later position. -/
theorem Turn.left_lt (h : Turn c s t) (hs : s.Valid c) (hne : ∀ r, s ≠ .finished r) :
    t.left c < s.left c := by
  have hstart := List.length_pos_iff.2 (Layout.start_ne_nil c.markers)
  have hstop := Layout.stop_length_pos c.markers
  rw [String.length_toList] at hstart
  have hv := h.valid hs
  cases h with
  | stays => exact absurd rfl (hne _)
  | _ => simp only [State.Valid, State.left] at hs hv ⊢; omega

/-- The layout of what is left in an open placeholder: the body so far, and how it goes on. -/
def insideLayout (c : Checked) (opened p : Nat) : Layout :=
  match Layout.cutBody c.markers c.strict opened p (c.text.toList.drop p) with
  | .error cause => .broken cause
  | .ok (body, rest) =>
    .placeholder (slice c.text.toList (opened + c.markers.start.length) p ++ body)
      (Layout.ofText c.markers c.strict (p + body.length + c.markers.stop.length) rest)

/-- What the loop will come to. -/
def State.outcome (c : Checked) : State → Except Fault (List Char × Nat)
  | .outside p out n =>
    ((Layout.ofText c.markers c.strict p (c.text.toList.drop p)).fill c.bindings).map
      fun x => (out ++ x.1, x.2 + n)
  | .inside opened p out n =>
    ((insideLayout c opened p).fill c.bindings).map fun x => (out ++ x.1, x.2 + n)
  | .finished result => result

/-- A turn does not change what the loop will come to. -/
theorem Turn.outcome_eq (h : Turn c s t) (hs : s.Valid c) : t.outcome c = s.outcome c := by
  cases h with
  | @copies p out n hp h =>
    rw [State.outcome, State.outcome, Layout.ofText_of_not_occursAt hp h, Layout.fill]
    cases (Layout.ofText c.markers c.strict (p + 1) (c.text.toList.drop (p + 1))).fill
      c.bindings <;> simp [Except.map]
  | @opens p out n h =>
    rw [State.outcome, State.outcome, Layout.ofText_of_occursAt h, insideLayout, slice, Nat.sub_self,
      List.take_zero]
    rfl
  | ends hp =>
    rw [State.outcome, State.outcome, hp, List.drop_length, Layout.ofText_nil, Layout.fill]
    simp [Except.map]
  | @replaces opened p out value n h hv =>
    rw [State.outcome, State.outcome, insideLayout, Layout.cutBody_of_occursAt h]
    dsimp only
    rw [List.append_nil, Layout.fill, hv, List.length_nil, Nat.add_zero]
    cases (Layout.ofText c.markers c.strict (p + c.markers.stop.length)
      (c.text.toList.drop (p + c.markers.stop.length))).fill c.bindings with
    | error f => rfl
    | ok x => simp [Except.map, bind, Except.bind, pure, Except.pure, Nat.add_assoc, Nat.add_comm 1]
  | refuses h hv =>
    rw [State.outcome, State.outcome, insideLayout, Layout.cutBody_of_occursAt h]
    dsimp only
    rw [List.append_nil, Layout.fill, hv]
    rfl
  | nested hfit h hstrict hn =>
    rw [State.outcome, State.outcome, insideLayout, Layout.cutBody_of_start hstrict h hfit hn]
    rfl
  | @goesOn opened p out n hfit h hn =>
    have hpos := Layout.stop_length_pos c.markers
    have hp : p < c.text.toList.length := by omega
    rw [State.outcome, State.outcome, insideLayout, insideLayout, Layout.cutBody_succ h hfit hn hp]
    cases Layout.cutBody c.markers c.strict opened (p + 1) (c.text.toList.drop (p + 1)) with
    | error e => rfl
    | ok x =>
      dsimp only [Except.map]
      rw [slice_succ hs.1 hp, List.append_assoc, List.singleton_append, List.length_cons,
        Nat.add_right_comm p 1, Nat.add_assoc p]
  | unterminated hfit =>
    rw [State.outcome, State.outcome, insideLayout, Layout.cutBody_of_not_fits hfit]
    rfl
  | stays => rfl

/-- Before its end the loop only passes through valid states. -/
theorem valid_iterate (hs : s.Valid c) (k : Nat) : ((next c)^[k] s).Valid c := by
  induction k with
  | zero => exact hs
  | succ k ih =>
    rw [Function.iterate_succ_apply']
    exact (does_step ih).1.valid ih

/-- The loop ends, with what it had to come to. -/
theorem exists_iterate (hs : s.Valid c) : ∃ k, (next c)^[k] s = .finished (s.outcome c) := by
  induction hn : s.left c using Nat.strongRecOn generalizing s with
  | ind n ih =>
    by_cases hf : ∃ r, s = .finished r
    · obtain ⟨r, rfl⟩ := hf
      exact ⟨0, rfl⟩
    · have hturn := (does_step hs).1
      have hlt := hturn.left_lt hs fun r hr => hf ⟨r, hr⟩
      obtain ⟨k, hk⟩ := ih _ (hn ▸ hlt) (hturn.valid hs) rfl
      exact ⟨k + 1, by rw [Function.iterate_succ_apply]; exact hturn.outcome_eq hs ▸ hk⟩

/-- The loop over the buffer of a text ends with the result of the scan. -/
theorem exists_iterate_start (c : Checked) : ∃ k, (next c)^[k] start = .finished
    ((scanCounting c.markers c.strict c.bindings c.text).map fun p => (p.1.toList, p.2)) := by
  have hstart : start.Valid c := Nat.zero_le _
  obtain ⟨k, hk⟩ := exists_iterate hstart
  refine ⟨k, hk.trans ?_⟩
  rw [start, State.outcome, List.drop_zero, scanCounting]
  cases (Layout.ofText c.markers c.strict 0 c.text.toList).fill c.bindings <;> simp [Except.map]

/-- No turn of the loop reads further than the text: the sentinel is read neither as a part of a
    marker nor to be put out. -/
theorem within_iterate_start (c : Checked) (k : Nat) :
    (step c ((next c)^[k] start)).Within c.text.length := by
  have hstart : start.Valid c := Nat.zero_le _
  rw [← String.length_toList]
  exact (does_step (valid_iterate hstart k)).2

end Buffer

/-- A text is filled in if and only if it is divided into literals and placeholders whose bodies all
    have values. There is one division at most, its placeholders are those that are counted, and the
    loop over the buffer finds it without reading further than the text. -/
theorem fillable_iff_divided (m : Markers) (strict : Bool) (bindings : Mapping) (text : String) :
    (∀ out, (Request.ofParts m strict bindings text).run.result = .ok out ↔
      ∃ d : Division, d.Lies m strict text.toList 0 ∧ d.written m = text.toList ∧
        ∃ values, d.HasValues bindings values ∧ out = String.ofList (d.filled values)) ∧
    (∀ d e : Division, d.Lies m strict text.toList 0 → e.Lies m strict text.toList 0 →
      d.written m = text.toList → e.written m = text.toList → d = e) ∧
    (∀ (d : Division) (values : List String), d.Lies m strict text.toList 0 →
      d.written m = text.toList → d.HasValues bindings values →
      scanCounting m strict bindings text =
        .ok (String.ofList (d.filled values), d.parts.length)) ∧
    (∃ k, (Buffer.next ⟨text, m, bindings, strict⟩)^[k] Buffer.start = .finished
      ((scanCounting m strict bindings text).map fun p => (p.1.toList, p.2))) ∧
    ∀ k, (Buffer.step ⟨text, m, bindings, strict⟩
      ((Buffer.next ⟨text, m, bindings, strict⟩)^[k] Buffer.start)).Within text.length := by
  refine ⟨fun out => ?_, fun _ _ => Division.eq_of_lies, fun _ _ => scanCounting_of_lies,
    Buffer.exists_iterate_start _, Buffer.within_iterate_start _⟩
  rw [Request.result_run_ofParts, scan_eq_ok_iff]
  constructor
  · rintro ⟨n, h⟩
    obtain ⟨d, hd, htext, values, hv, hout, -⟩ := scanCounting_eq_ok_iff.1 h
    exact ⟨d, hd, htext, values, hv, hout⟩
  · rintro ⟨d, hd, htext, values, hv, hout⟩
    exact ⟨_, scanCounting_eq_ok_iff.2 ⟨d, hd, htext, values, hv, hout, rfl⟩⟩

/-- The sentinel does not complete an end marker, and a start marker at the end opens a
    placeholder. -/
example : scan ⟨"<", ">\n", by decide, by decide⟩ false [] "<a>" =
    .error (Error.unterminated 0 ">\n") := by decide +kernel

end Stencil
