import Stencil.Proofs.LayerPrecedence

/-!
# The algebra of merging

Laying mappings over each other is an operation with laws of its own, which hold for the order of the
entries as well. A mapping is given by its keys in order and by what is found under each of them, so
every law is shown for the keys and for a single key, where it is the law for the values that are found
there.

* `Mapping.eq_of_keys_eq`: mappings with the same keys in the same order and the same values are equal;
* `Mapping.keys_merge`: the keys of the lower mapping come first, and then the new ones;
* `Mapping.mergeValue_self`, `Mapping.mergeValue_assoc`: the laws for values;
* `Mapping.merge_laws`: the laws for mappings.
-/

namespace Stencil

/-- At a path, something that is no mapping comes between two mappings. -/
def Value.Conceals (middle lower upper : Value) (path : List Key) : Prop :=
  (∃ m, lower.reach? path = some (.map m)) ∧
    (∃ v, middle.reach? path = some v ∧ v.entries? = none) ∧
    ∃ m, upper.reach? path = some (.map m)

namespace Mapping

variable {m n a b c lower upper : Mapping} {k l : Key} {v w x y z : Value} {p : List Key}

/-! ## Keys -/

theorem keys_cons (e : Key × Value) (m : Mapping) : keys (e :: m) = e.1 :: keys m := rfl

theorem get?_eq_none_iff_keys : get? m k = none ↔ ∀ l ∈ keys m, ¬l.same k := by
  rw [get?_eq_none_iff, keys, List.forall_mem_map]

theorem has_of_mem_keys (h : k ∈ keys m) : has m k := by
  rw [has, Option.isSome_iff_ne_none]
  exact fun hnone => get?_eq_none_iff_keys.1 hnone k h (Key.same_self k)

/-- Mappings with the same keys in the same order and with the same values are equal. -/
theorem eq_of_keys_eq (hm : m.Pairwise fun e f => ¬e.1.same f.1) (hkeys : keys m = keys n)
    (h : ∀ k, get? m k = get? n k) : m = n := by
  induction m generalizing n with
  | nil => exact (List.map_eq_nil_iff.1 hkeys.symm).symm
  | cons e m ih =>
    obtain ⟨f, n, rfl, hf, hn⟩ := List.map_eq_cons_iff.1 hkeys.symm
    rw [← keys, ← keys] at hn
    rw [List.pairwise_cons] at hm
    have hvalue : e.2 = f.2 := by
      have he := h e.1
      rw [get?, get?, if_pos (Key.same_self e.1), hf, if_pos (Key.same_self e.1)] at he
      exact Option.some.inj he
    have htail (k : Key) : get? m k = get? n k := by
      by_cases hk : e.1.same k
      · have hnone : get? m k = none := get?_eq_none_iff.2 fun g hg hgk =>
          hm.1 g hg (Key.same_trans hk (Key.same_comm _ _ ▸ hgk))
        rw [hnone, eq_comm, get?_eq_none_iff_keys, hn]
        exact get?_eq_none_iff_keys.1 hnone
      · have hstep := h k
        rwa [get?, get?, if_neg hk, hf, if_neg hk] at hstep
    rw [ih hm.2 hn.symm htail, Prod.ext hf.symm hvalue]

/-- A value that is put in takes the place of the old one, or comes last. -/
theorem keys_put (m : Mapping) (k : Key) (v : Value) :
    keys (put m k v) = if has m k then keys m else keys m ++ [k] := by
  induction m with
  | nil => rfl
  | cons e m ih =>
    rw [put, has, get?]
    by_cases h : e.1.same k
    · rw [if_pos h, if_pos h]
      rfl
    · rw [if_neg h, if_neg h, keys_cons, keys_cons, ih, has]
      split <;> rfl

theorem has_put (m : Mapping) (k : Key) (v : Value) (l : Key) :
    has (put m k v) l = (k.same l || has m l) := by
  rw [has]
  by_cases h : k.same l
  · rw [get?_put_same h, h]
    rfl
  · rw [get?_put_of_not_same h, ← has, Bool.eq_false_iff.2 h, Bool.false_or]

/-- The keys of the lower mapping come first, and then those of the upper one that are new. -/
theorem keys_merge (h : upper.Pairwise fun e f => ¬e.1.same f.1) (lower : Mapping) :
    keys (merge lower upper) = keys lower ++ (keys upper).filter fun k => !has lower k := by
  induction upper generalizing lower with
  | nil => rw [merge_nil, keys, keys, List.map_nil, List.filter_nil, List.append_nil]
  | cons e upper ih =>
    obtain ⟨k, v⟩ := e
    rw [List.pairwise_cons] at h
    -- The other keys are new in front of this entry if they are new behind it.
    have hfilter (w : Value) : (keys upper).filter (fun l => !has (put lower k w) l) =
        (keys upper).filter fun l => !has lower l := by
      refine List.filter_congr fun l hl => ?_
      obtain ⟨f, hf, rfl⟩ := List.mem_map.1 hl
      rw [has_put, Bool.eq_false_iff.2 (h.1 f hf), Bool.false_or]
    rw [merge, ih h.2, hfilter, keys_put, keys_cons, List.filter_cons]
    cases has lower k with
    | true => rfl
    | false => exact List.append_assoc _ _ _

theorem pairwise_merge (h : lower.Pairwise fun e f => ¬e.1.same f.1) (upper : Mapping) :
    (merge lower upper).Pairwise fun e f => ¬e.1.same f.1 := by
  induction upper generalizing lower with
  | nil => rwa [merge_nil]
  | cons e upper ih =>
    rw [merge]
    exact ih (pairwise_put h _ _)

theorem has_merge (h : upper.Pairwise fun e f => ¬e.1.same f.1) (lower : Mapping) (k : Key) :
    has (merge lower upper) k = (has lower k || has upper k) := by
  rw [has, get?_merge h, Option.isSome_or, Option.isSome_map, Bool.or_comm, has, has]

/-! ## The empty mapping -/

/-- Laid over the empty mapping, a mapping stays as it is. -/
theorem nil_merge (hm : m.Pairwise fun e f => ¬e.1.same f.1) : merge [] m = m := by
  refine eq_of_keys_eq (pairwise_merge .nil m) ?_ fun k => ?_
  · rw [keys_merge hm]
    exact List.filter_eq_self.2 fun k _ => rfl
  · rw [get?_merge hm, get?_nil, Option.or_none]
    cases get? m k with
    | none => rfl
    | some v => rw [Option.map_some, mergeValue_none]

/-! ## Laws for values -/

/-- A value laid over itself stays as it is. -/
theorem mergeValue_self (hv : v.Distinct) : mergeValue (some v) v = v := by
  induction v using Value.rec_on_parts with
  | map es ih =>
    have hes := Distinct.pairwise hv
    rw [← map_merge]
    refine congrArg _ (eq_of_keys_eq (pairwise_merge hes es) ?_ fun k => ?_)
    · rw [keys_merge hes, List.filter_eq_nil_iff.2 fun k hk => by simp [has_of_mem_keys hk],
        List.append_nil]
    · rw [get?_merge hes]
      cases hk : get? es k with
      | none => rfl
      | some w =>
        obtain ⟨e, he, rfl⟩ := exists_mem_of_get? hk
        rw [Option.map_some, Option.some_or, ih e he (Distinct.snd hv he)]
  | _ => rw [mergeValue_of_entries?_eq_none rfl]

/-- The keys of three mappings come in the same order, whichever two are merged first. -/
theorem keys_merge_assoc (hb : b.Pairwise fun e f => ¬e.1.same f.1)
    (hc : c.Pairwise fun e f => ¬e.1.same f.1) (a : Mapping) :
    keys (merge (merge a b) c) = keys (merge a (merge b c)) := by
  have hnew (k : Key) : (!has (merge a b) k) = (!has a k && !has b k) := by
    rw [has_merge hb, Bool.not_or]
  rw [keys_merge hc, keys_merge hb, keys_merge (pairwise_merge hb c), keys_merge hc,
    List.filter_append, List.filter_filter, List.append_assoc]
  simp only [hnew]

theorem conceals_cons (hx : get? a k = some x) (hy : get? b k = some y) (hz : get? c k = some z)
    (h : y.Conceals x z p) : (Value.map b).Conceals (.map a) (.map c) (k :: p) := by
  simpa only [Value.Conceals, Value.reach?_cons, Value.under?_map, hx, hy, hz, Option.bind_some]
    using h

/-- Values can be laid over each other in any order of the two steps, if nothing comes between two
    mappings. -/
theorem mergeValue_assoc (hx : x.Distinct) (hy : y.Distinct) (hz : z.Distinct)
    (h : ∀ path, ¬y.Conceals x z path) :
    mergeValue (some (mergeValue (some x) y)) z = mergeValue (some x) (mergeValue (some y) z) := by
  induction z using Value.rec_on_parts generalizing x y with
  | map c ih =>
    rcases y.eq_map_or_entries?_eq_none with ⟨b, rfl⟩ | hentries
    · rcases x.eq_map_or_entries?_eq_none with ⟨a, rfl⟩ | hentries
      · have ha := pairwise_merge (pairwise_merge (Distinct.pairwise hx) b) c
        have hb := Distinct.pairwise hy
        have hc := Distinct.pairwise hz
        simp only [← map_merge]
        refine congrArg _ (eq_of_keys_eq ha (keys_merge_assoc hb hc a) fun k => ?_)
        rw [get?_merge hc, get?_merge hb, get?_merge (pairwise_merge hb c), get?_merge hc]
        -- Only where all three have something is there anything to be rearranged.
        cases hck : get? c k with
        | none => rfl
        | some z =>
          cases hbk : get? b k with
          | none => simp
          | some y =>
            cases hak : get? a k with
            | none => simp
            | some x =>
              obtain ⟨e, he, rfl⟩ := exists_mem_of_get? hck
              have hassoc := ih e he (Distinct.get? hx hak) (Distinct.get? hy hbk)
                (Distinct.snd hz he) fun p hp => h (k :: p) (conceals_cons hak hbk hck hp)
              simp only [Option.map_some, Option.some_or, hassoc]
      · simp only [mergeValue_map_of_entries?_eq_none hentries, ← map_merge]
    · -- What is in the way of the upper mapping hides nothing but values without entries.
      have hlower : x.entries? = none := by
        refine x.eq_map_or_entries?_eq_none.resolve_left fun ⟨a, ha⟩ => h [] ?_
        exact ⟨⟨a, congrArg some ha⟩, ⟨y, rfl, hentries⟩, ⟨c, rfl⟩⟩
      rw [mergeValue_of_entries?_eq_none hentries, mergeValue_map_of_entries?_eq_none hentries,
        mergeValue_map_of_entries?_eq_none hlower]
  | _ => rw [mergeValue_of_entries?_eq_none rfl, mergeValue_of_entries?_eq_none rfl,
      mergeValue_of_entries?_eq_none rfl]

/-! ## Laws for mappings -/

/-- A mapping laid over itself stays as it is. -/
theorem merge_self (hm : m.Distinct) : merge m m = m := by
  have hself := mergeValue_self hm
  rw [← map_merge] at hself
  exact Value.map.inj hself

theorem merge_assoc (ha : a.Distinct) (hb : b.Distinct) (hc : c.Distinct)
    (h : ∀ path, ¬(Value.map b).Conceals (.map a) (.map c) path) :
    merge (merge a b) c = merge a (merge b c) := by
  have hassoc := mergeValue_assoc ha hb hc h
  simp only [← map_merge] at hassoc
  exact Value.map.inj hassoc

/-- A mapping that is laid over others twice changes nothing the second time. -/
theorem merge_merge_self (ha : a.Distinct) (hb : b.Distinct) :
    merge (merge a b) b = merge a b := by
  have hconceals (path : List Key) : ¬(Value.map b).Conceals (.map a) (.map b) path := by
    rintro ⟨-, ⟨v, hv, hentries⟩, m, hm⟩
    rw [hv] at hm
    cases hm
    cases hentries
  rw [merge_assoc ha hb hb hconceals, merge_self hb]

/-- Wherever both mappings hold one, the merged mapping holds these two, merged. -/
theorem reach?_merge_of_mappings (hb : b.Distinct) (hm : (Value.map a).reach? p = some (.map m))
    (hn : (Value.map b).reach? p = some (.map n)) :
    (Value.map (merge a b)).reach? p = some (.map (merge m n)) := by
  rw [map_merge, reach?_mergeValue_of_touches hb (.inl (by rw [hn]; rfl)), hn, Option.map_some,
    Option.bind_some, hm, map_merge]

/-- A mapping with one text as its key holds nothing elsewhere. -/
theorem eq_str_of_reach? {s : String} (h : (Value.map [(.str s, w)]).reach? (k :: p) = some v) :
    k = .str s := by
  by_contra hk
  rw [Value.reach?_cons, Value.under?_map, get?, if_neg (mt Key.same_str_iff.1 hk)] at h
  cases h

/-- Merging has the empty mapping as its unit on both sides, a mapping changes nothing over itself,
    and nothing when it is laid over others once more. Where both mappings hold one, however deep, the
    keys of the lower one come first, in order, and then those of the upper one that are new, in order.
    Of three mappings any two may be merged first, if the middle one has nothing in the way at a path
    where the others hold mappings. -/
theorem merge_laws (ha : a.Distinct) (hb : b.Distinct) (hc : c.Distinct) :
    merge a [] = a ∧ merge [] a = a ∧ merge a a = a ∧ merge (merge a b) b = merge a b ∧
      (∀ path m n, (Value.map a).reach? path = some (.map m) →
        (Value.map b).reach? path = some (.map n) →
          (Value.map (merge a b)).reach? path = some (.map (merge m n)) ∧
            keys (merge m n) = keys m ++ (keys n).filter fun k => !has m k) ∧
      ((∀ path, ¬(Value.map b).Conceals (.map a) (.map c) path) →
        merge (merge a b) c = merge a (merge b c)) := by
  refine ⟨merge_nil a, nil_merge ha.pairwise, merge_self ha, merge_merge_self ha hb, ?_,
    merge_assoc ha hb hc⟩
  intro path m n hm hn
  have hn' : (Value.map n).Distinct :=
    Value.of_reach?_eq_some (P := Value.Distinct) (fun _ _ _ h hk => Distinct.get? h hk) hb hn
  exact ⟨reach?_merge_of_mappings hb hm hn, keys_merge (Distinct.pairwise hn') m⟩

/-- Where the upper mapping holds a mapping the middle one has a number, but the lower one has nothing
    that the number could hide. -/
theorem merge_laws_three_layers :
    let a : Mapping := [(.str "x", .map [(.str "u", .int 1), (.str "v", .int 2)]), (.str "y", .int 3)]
    let b : Mapping := [(.str "y", .map [(.str "w", .int 4)]), (.str "x", .map [(.str "z", .int 5)])]
    let c : Mapping := [(.str "x", .map [(.str "z", .map []), (.str "v", .null)])]
    (a.Distinct ∧ b.Distinct ∧ c.Distinct ∧
      ∀ path, ¬(Value.map b).Conceals (.map a) (.map c) path) ∧
      merge (merge a b) c = merge a (merge b c) ∧ merge (merge a b) b = merge a b ∧
      merge a b = [(.str "x", .map [(.str "u", .int 1), (.str "v", .int 2), (.str "z", .int 5)]),
        (.str "y", .map [(.str "w", .int 4)])] := by
  intro a b c
  have ha : a.Distinct := by decide
  have hb : b.Distinct := by decide
  have hc : c.Distinct := by decide
  have h (path : List Key) : ¬(Value.map b).Conceals (.map a) (.map c) path := by
    rintro ⟨⟨m, hm⟩, ⟨v, hv, hentries⟩, n, hn⟩
    rcases path with _ | ⟨k, _ | ⟨l, path⟩⟩
    · cases hv
      cases hentries
    · cases eq_str_of_reach? hn
      cases hv
      cases hentries
    · cases eq_str_of_reach? hn
      rw [Value.reach?_cons, Value.under?_map] at hv
      cases eq_str_of_reach? hv
      cases hm
  obtain ⟨-, -, -, hagain, -, hassoc⟩ := merge_laws ha hb hc
  exact ⟨⟨ha, hb, hc, h⟩, hassoc h, hagain, by decide⟩

/-- What the middle mapping has in the way hides the lower one only if it is laid over that first. -/
example :
    let a : Mapping := [(.str "x", .map [(.str "u", .int 1)])]
    let b : Mapping := [(.str "x", .null)]
    let c : Mapping := [(.str "x", .map [])]
    merge (merge a b) c = [(.str "x", .map [])] ∧ merge a (merge b c) = a := by decide

end Mapping

end Stencil
