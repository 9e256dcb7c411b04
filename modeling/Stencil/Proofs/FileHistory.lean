import Mathlib.Data.List.Nodup
import Mathlib.Logic.Relation
import Stencil.Files.Store
import Stencil.Proofs.Places

/-!
# The history of files

Files that stand where files can stand, and how such files come from earlier ones. Files change step
by step, each time at a single place, and what a step can do is told once, for all invariants. What
was written before is recognised by the number of its write.

* `Files.Step`, `Files.Step.exists_changedAt`: a change of files, and all that it can do;
* `Files.Sound`: all that there is stands in a directory, once, and was written before;
* `Files.Later`: what may have become of files, where some names are never used;
* `Files.read_congr`: a file is read alike wherever it is the same.
-/

namespace Stencil

/-- Two computations in a row succeed only if each of them does. -/
theorem exists_of_bind_eq_ok {ε α β : Type} {x : Except ε α} {f : α → Except ε β} {b : β}
    (h : (x >>= f) = .ok b) : ∃ a, x = .ok a ∧ f a = .ok b := by
  cases x with
  | error e => cases h
  | ok a => exact ⟨a, rfl, h⟩

theorem exists_of_map_eq_ok {ε α β : Type} {x : Except ε α} {f : α → β} {b : β}
    (h : x.map f = .ok b) : ∃ a, x = .ok a ∧ f a = b := by
  cases x with
  | error e => cases h
  | ok a => exact ⟨a, rfl, Except.ok.inj h⟩

theorem exists_map_eq_ok_iff {ε α β : Type} {x : Except ε α} {f : α → β} :
    (∃ b, x.map f = .ok b) ↔ ∃ a, x = .ok a :=
  ⟨fun ⟨_, h⟩ => (exists_of_map_eq_ok h).imp fun _ ha => ha.1, fun ⟨a, h⟩ => ⟨f a, by rw [h]; rfl⟩⟩

theorem exists_bind_map_eq_ok_iff {ε α β γ : Type} {x : Except ε α} {y : Except ε β} {f : α → β → γ} :
    (∃ c, (x >>= fun a => y >>= fun b => pure (f a b)) = .ok c) ↔ (∃ a, x = .ok a) ∧ ∃ b, y = .ok b := by
  constructor
  · rintro ⟨c, h⟩
    obtain ⟨a, ha, h⟩ := exists_of_bind_eq_ok h
    obtain ⟨b, hb, -⟩ := exists_of_bind_eq_ok h
    exact ⟨⟨a, ha⟩, b, hb⟩
  · rintro ⟨⟨a, rfl⟩, b, rfl⟩
    exact ⟨_, rfl⟩

/-- What all items come to is what each of them comes to. -/
theorem forall_mem_of_mapM_eq_ok {ε α β : Type} {f : α → Except ε β} {P : β → Prop}
    (hf : ∀ a b, f a = .ok b → P b) {as : List α} {bs : List β} (h : as.mapM f = .ok bs) :
    ∀ b ∈ bs, P b := by
  induction as generalizing bs with
  | nil =>
    cases h
    exact nofun
  | cons a as ih =>
    rw [List.mapM_cons] at h
    obtain ⟨b, hb, h⟩ := exists_of_bind_eq_ok h
    obtain ⟨bs, hbs, h⟩ := exists_of_bind_eq_ok h
    cases h
    exact List.forall_mem_cons.2 ⟨hf a b hb, ih hbs⟩

namespace Files

variable {fs fs' : Files} {p p' q : Place} {name : String} {e : FileEntry} {content : ByteArray}
  {stamp : Nat}

/-! ## Names in directories -/

/-- An entry stands in the directory `p` under a name if its place is `p` and the name. -/
theorem getLast?_of_dropLast : (if q.dropLast = p then q.getLast? else none) = some name ↔
    q = p ++ [name] := by
  constructor
  · intro h
    split at h
    · next hp => rw [← hp, List.dropLast_append_getLast? name h]
    · cases h
  · rintro rfl
    rw [List.dropLast_concat, if_pos rfl, List.getLast?_concat]

theorem find?_append : fs.find? (p ++ [name]) = fs.entries.lookup (p ++ [name]) := by
  rw [find?, if_neg (by simp)]

/-- The names in a directory are those of what stands there. -/
theorem mem_names : name ∈ fs.names p ↔ (fs.find? (p ++ [name])).isSome := by
  rw [find?_append, List.lookup_isSome_iff, names, List.mem_filterMap]
  simp only [getLast?_of_dropLast, beq_iff_eq]
  exact exists_congr fun e => and_congr_right fun _ => eq_comm

/-! ## Sound files -/

/-- Files that stand where files can stand. -/
structure Sound (fs : Files) : Prop where
  /-- Nothing stands at the same place as something else. -/
  nodup : (fs.entries.map Prod.fst).Nodup
  /-- What there is stands in a directory. -/
  parent {p : Place} {name : String} {e : FileEntry} :
    fs.find? (p ++ [name]) = some e → fs.find? p = some .directory
  /-- A file was written by a write that is over. -/
  stamp_lt {p : Place} {content : ByteArray} {stamp : Nat} :
    fs.find? p = some (.file content stamp) → stamp < fs.clock

namespace Sound

theorem empty : Sound empty where
  nodup := List.nodup_nil
  parent h := by
    rw [find?_append] at h
    cases h
  stamp_lt {p _ _} h := by
    cases p <;> cases h

/-- The names in a directory are different from each other. -/
theorem nodup_names (h : fs.Sound) (p : Place) : (fs.names p).Nodup := by
  have hnames : fs.names p = (fs.entries.map Prod.fst).filterMap
      fun q => if q.dropLast = p then q.getLast? else none := by
    rw [List.filterMap_map]
    rfl
  rw [hnames]
  -- Two places in one directory with the same name are one place.
  refine h.nodup.filterMap fun q q' name hq hq' => ?_
  rw [getLast?_of_dropLast.1 hq, getLast?_of_dropLast.1 hq']

/-- There is a directory at every place on the way to something. -/
theorem directory_of_append (h : fs.Sound) {r : Place}
    (he : fs.find? (p ++ name :: r) = some e) : fs.find? p = some .directory := by
  induction r generalizing p name with
  | nil => exact h.parent he
  | cons n r ih =>
    rw [List.append_cons] at he
    exact h.parent (ih he)

end Sound

/-! ## Paths to places -/

/-- A step into a directory leads to the name in it, if this is not too long. -/
theorem walk_of_directory (h : fs.find? p = some .directory) (hup : name ≠ "..") :
    fs.walk p name =
      if maxNameLength < name.utf8ByteSize then .error .nameTooLong else .ok (p ++ [name]) := by
  rw [walk, h, FilePath.step, if_neg hup]

/-- The way down to a place is free if directories are on it and no name is too long. -/
theorem foldlM_walk (hup : ".." ∉ q)
    (h : ∀ r n s, q = r ++ n :: s → fs.find? (p ++ r) = some .directory) :
    q.foldlM fs.walk p =
      if q.any (maxNameLength < ·.utf8ByteSize) then .error .nameTooLong else .ok (p ++ q) := by
  induction q generalizing p with
  | nil => simp [pure, Except.pure]
  | cons n q ih =>
    rw [List.mem_cons, not_or] at hup
    have hp := h [] n q rfl
    rw [List.append_nil] at hp
    rw [List.foldlM_cons, walk_of_directory hp (Ne.symm hup.1), List.any_cons]
    by_cases hn : maxNameLength < n.utf8ByteSize
    · simp [hn, bind, Except.bind]
    -- The first step is free, and behind it the way is one name shorter.
    · have hq := ih (p := p ++ [n]) hup.2 fun r m s hs => by
        rw [List.append_assoc]
        exact h (n :: r) m s (by rw [hs]; rfl)
      simpa [hn, bind, Except.bind] using hq

/-- Only from a directory a step leads on. -/
theorem walk_eq_ok (h : fs.walk p name = .ok p') :
    fs.find? p = some .directory ∧ p' = FilePath.step p name := by
  rw [walk] at h
  split at h
  · cases h
  · cases h
  · next hp =>
    split at h
    · cases h
    · exact ⟨hp, (Except.ok.inj h).symm⟩

/-- A way down to a place that was gone leads there, and directories are on it. -/
theorem foldlM_walk_eq_ok (hup : ".." ∉ q) (h : q.foldlM fs.walk p = .ok p') :
    p' = p ++ q ∧ ∀ r n s, q = r ++ n :: s → fs.find? (p ++ r) = some .directory := by
  induction q generalizing p with
  | nil =>
    cases h
    exact ⟨(List.append_nil _).symm, fun r n s hs => by simp at hs⟩
  | cons m q ih =>
    rw [List.mem_cons, not_or] at hup
    rw [List.foldlM_cons] at h
    obtain ⟨p₁, hw, h⟩ := exists_of_bind_eq_ok h
    obtain ⟨hp, rfl⟩ := walk_eq_ok hw
    rw [FilePath.step, if_neg (Ne.symm hup.1)] at h
    obtain ⟨rfl, hq⟩ := ih hup.2 h
    refine ⟨by rw [List.append_assoc]; rfl, fun r n s hs => ?_⟩
    cases r with
    | nil => rwa [List.append_nil]
    | cons m' r =>
      obtain ⟨rfl, hq'⟩ := List.cons.inj hs
      rw [List.append_cons]
      exact hq r n s hq'

/-- The way along a path that leads somewhere. -/
theorem locate_eq_ok {cwd : Place} {path : FilePath} (h : fs.locate cwd path = .ok p) :
    path.segments.foldlM fs.walk (if path.absolute then [] else cwd) = .ok p := by
  rw [locate] at h
  dsimp only at h
  split at h
  · cases h
  split at h
  · cases h
  cases hw : path.segments.foldlM fs.walk (if path.absolute then [] else cwd) with
  | error reason =>
    rw [hw] at h
    cases h
  | ok place =>
    rw [hw] at h
    cases h
    rfl

/-- A path is followed alike where the way along it is the same. -/
theorem locate_of_foldlM_walk {cwd : Place} {path : FilePath}
    (h : path.segments.foldlM fs'.walk (if path.absolute then [] else cwd) =
      path.segments.foldlM fs.walk (if path.absolute then [] else cwd)) :
    fs'.locate cwd path = fs.locate cwd path := by
  rw [locate, locate, h]

/-- A path to a place leads nowhere else, and directories are on it. -/
theorem locate_ofPlace_eq_ok (hup : ".." ∉ q) {cwd : Place}
    (h : fs.locate cwd (.ofPlace q) = .ok p') :
    p' = q ∧ ∀ r n s, q = r ++ n :: s → fs.find? r = some .directory :=
  foldlM_walk_eq_ok hup (locate_eq_ok h)

/-- The path to something is followed alike in all sound files. -/
theorem locate_congr (h : fs.Sound) (h' : fs'.Sound) (hup : ".." ∉ q)
    (he : fs.find? q = some e) {e' : FileEntry} (he' : fs'.find? q = some e') (cwd : Place) :
    fs'.locate cwd (.ofPlace q) = fs.locate cwd (.ofPlace q) := by
  have hwalk : (FilePath.ofPlace q).segments.foldlM fs'.walk
      (if (FilePath.ofPlace q).absolute then [] else cwd) =
        (FilePath.ofPlace q).segments.foldlM fs.walk
          (if (FilePath.ofPlace q).absolute then [] else cwd) := by
    refine (foldlM_walk hup fun r n s hs => ?_).trans (foldlM_walk hup fun r n s hs => ?_).symm
    · exact h'.directory_of_append (hs ▸ he')
    · exact h.directory_of_append (hs ▸ he)
  exact locate_of_foldlM_walk hwalk

/-- A file is read alike wherever it is the same. -/
theorem read_congr (h : fs.Sound) (h' : fs'.Sound) (hup : ".." ∉ q) (he : fs.find? q = some e)
    (he' : fs'.find? q = some e) (cwd : Place) :
    fs'.read cwd (.ofPlace q) = fs.read cwd (.ofPlace q) := by
  rw [read, read, locate_congr h h' hup he he']
  cases hl : fs.locate cwd (.ofPlace q) with
  | error f => rfl
  | ok place =>
    obtain ⟨rfl, -⟩ := locate_ofPlace_eq_ok hup hl
    dsimp only [bind, Except.bind]
    rw [he, he']

/-- What is read is the content of a file. -/
theorem exists_file_of_read {cwd : Place} {path : FilePath} (h : fs.read cwd path = .ok content) :
    ∃ place stamp, fs.find? place = some (.file content stamp) := by
  obtain ⟨place, -, h⟩ := exists_of_bind_eq_ok h
  split at h
  · next hfile =>
    cases h
    exact ⟨place, _, hfile⟩
  · cases h
  · cases h

/-- What is done at the end of a path to a place is done at the place. -/
theorem locate_bind_eq_ok {α : Type} {f : Place → Except Fault α} {x : α} {cwd : Place}
    (hup : ".." ∉ q) (h : (fs.locate cwd (.ofPlace q) >>= f) = .ok x) :
    f q = .ok x ∧ ∀ r n s, q = r ++ n :: s → fs.find? r = some .directory := by
  obtain ⟨place, hl, hf⟩ := exists_of_bind_eq_ok h
  obtain ⟨rfl, hway⟩ := locate_ofPlace_eq_ok hup hl
  exact ⟨hf, hway⟩

/-- What was written was written to its place, and directories are on the way there. -/
theorem write_ofPlace_eq_ok {cwd : Place} (hup : ".." ∉ q)
    (h : fs.write cwd (.ofPlace q) content = .ok fs') :
    fs' = fs.overwrite q content ∧ fs.find? q ≠ some .directory ∧
      ∀ r n s, q = r ++ n :: s → fs.find? r = some .directory := by
  obtain ⟨h, hway⟩ := locate_bind_eq_ok hup h
  split at h
  · cases h
  · next hd => exact ⟨(Except.ok.inj h).symm, fun hdir => hd hdir, hway⟩
  · cases h
  · cases h

/-- What was removed was no directory, and directories are on the way there. -/
theorem delete_ofPlace_eq_ok {cwd : Place} (hup : ".." ∉ q)
    (h : fs.delete cwd (.ofPlace q) = .ok fs') :
    fs' = fs.remove q ∧ fs.find? q ≠ some .directory ∧
      ∀ r n s, q = r ++ n :: s → fs.find? r = some .directory := by
  obtain ⟨h, hway⟩ := locate_bind_eq_ok hup h
  split at h
  · next hf =>
    refine ⟨(Except.ok.inj h).symm, fun hd => ?_, hway⟩
    rw [hf] at hd
    cases hd
  · cases h
  · cases h

/-! ## Changes -/

/-- Two states of files with a change at `p` at most in between. -/
structure ChangedAt (p : Place) (fs fs' : Files) : Prop where
  find?_eq {q : Place} : q ≠ p → fs'.find? q = fs.find? q
  clock_le : fs.clock ≤ fs'.clock
  nodup : (fs.entries.map Prod.fst).Nodup → (fs'.entries.map Prod.fst).Nodup

/-- Something is put at one place, -/
theorem changedAt_put (fs : Files) (p : Place) (e : FileEntry) : ChangedAt p fs (fs.put p e) where
  find?_eq h := find?_put_of_ne fs h e
  clock_le := Nat.le_refl _
  nodup h := by
    rw [put, List.map_cons, List.nodup_cons]
    refine ⟨fun hm => ?_, h.sublist (List.filter_sublist.map _)⟩
    obtain ⟨e, he, rfl⟩ := List.mem_map.1 hm
    exact of_decide_eq_true (List.mem_filter.1 he).2 rfl

/-- written to one place, -/
theorem changedAt_overwrite (fs : Files) (p : Place) (content : ByteArray) :
    ChangedAt p fs (fs.overwrite p content) :=
  have h := changedAt_put fs p (.file content fs.clock)
  ⟨h.find?_eq, Nat.le_succ _, h.nodup⟩

/-- or removed from one place. -/
theorem changedAt_remove (fs : Files) (p : Place) : ChangedAt p fs (fs.remove p) where
  find?_eq {q} h := by
    by_cases hq : q = []
    · subst hq
      rfl
    · simp only [find?, remove, lookup_filter_ne fs.entries h]
  clock_le := Nat.le_refl _
  nodup h := h.sublist (List.filter_sublist.map _)

/-- What was written last is found. -/
theorem find?_overwrite_self (hp : p ≠ []) :
    (fs.overwrite p content).find? p = some (.file content fs.clock) :=
  find?_put_self fs hp _

/-- What was removed is not found. -/
theorem find?_remove_self (hp : p ≠ []) : (fs.remove p).find? p = none := by
  rw [find?, if_neg (by simpa using hp), List.lookup_eq_none_iff]
  intro e he
  have hne : e.1 ≠ p := of_decide_eq_true (List.mem_filter.1 he).2
  simpa using hne.symm

/-- One change of files: a file is written or removed, or a directory is made. Names that are `fixed`
    are left alone, and new directories have names of a kind. -/
inductive Step (fixed made : String → Prop) (fs : Files) : Files → Prop
  | write {p : Place} {name : String} (content : ByteArray) (hp : fs.find? p = some .directory)
    (hn : fs.find? (p ++ [name]) ≠ some .directory) (hf : ¬fixed name) :
    Step fixed made fs (fs.overwrite (p ++ [name]) content)
  | remove {p : Place} {name : String} (hp : fs.find? p = some .directory)
    (hn : fs.find? (p ++ [name]) ≠ some .directory) (hf : ¬fixed name) :
    Step fixed made fs (fs.remove (p ++ [name]))
  | make {p : Place} {name : String} (hp : fs.find? p = some .directory)
    (hn : fs.find? (p ++ [name]) ≠ some .directory) (hf : ¬fixed name) (hm : made name) :
    Step fixed made fs (fs.put (p ++ [name]) .directory)

variable {fixed made : String → Prop}

/-- All that a change can do: what stands at its place afterwards is new. -/
theorem Step.exists_changedAt (h : Step fixed made fs fs') : ∃ p name,
    ChangedAt (p ++ [name]) fs fs' ∧ fs.find? p = some .directory ∧
      fs.find? (p ++ [name]) ≠ some .directory ∧ ¬fixed name ∧
        ∀ e, fs'.find? (p ++ [name]) = some e →
          (∃ content, e = .file content fs.clock ∧ fs.clock < fs'.clock) ∨
            e = .directory ∧ made name := by
  have hne (p : Place) (name : String) : p ++ [name] ≠ [] := by simp
  cases h with
  | @write p name content hp hn hf =>
    refine ⟨p, name, changedAt_overwrite _ _ _, hp, hn, hf, fun e he => .inl ⟨content, ?_⟩⟩
    rw [find?_overwrite_self (hne p name)] at he
    exact ⟨(Option.some.inj he).symm, Nat.lt_succ_self _⟩
  | @remove p name hp hn hf =>
    refine ⟨p, name, changedAt_remove _ _, hp, hn, hf, fun e he => ?_⟩
    rw [find?_remove_self (hne p name)] at he
    cases he
  | @make p name hp hn hf hm =>
    refine ⟨p, name, changedAt_put _ _ _, hp, hn, hf, fun e he => .inr ⟨?_, hm⟩⟩
    rw [find?_put_self _ (hne p name)] at he
    exact (Option.some.inj he).symm

/-- Files stay sound. -/
theorem Sound.step (h : fs.Sound) (hs : Step fixed made fs fs') : fs'.Sound := by
  obtain ⟨p, name, hc, hp, hdir, -, hnew⟩ := hs.exists_changedAt
  have hne : p ≠ p ++ [name] := fun he => by simpa using congrArg List.length he
  -- What is new stands in a directory and bears the time of the change. All else is as it was.
  refine ⟨hc.nodup h.nodup, fun {q n e} he => ?_, fun {q content stamp} he => ?_⟩
  · by_cases hq : q ++ [n] = p ++ [name]
    · obtain ⟨rfl, -⟩ := List.append_inj' hq rfl
      rwa [hc.find?_eq hne]
    · -- No directory stood at the place of the change, so what changed is not above `q`.
      rw [hc.find?_eq hq] at he
      have hdirectory := h.parent he
      rwa [hc.find?_eq fun hqp => hdir (hqp ▸ hdirectory)]
  · by_cases hq : q = p ++ [name]
    · rcases hnew _ (hq ▸ he) with ⟨_, heq, hlt⟩ | ⟨heq, -⟩
      · cases heq
        exact hlt
      · cases heq
    · rw [hc.find?_eq hq] at he
      exact Nat.lt_of_lt_of_le (h.stamp_lt he) hc.clock_le

/-! ## Later files -/

/-- What may have become of files. -/
structure Later (fixed made : String → Prop) (fs fs' : Files) : Prop where
  clock_le : fs.clock ≤ fs'.clock
  /-- A file that was written before has been there since. -/
  old {p : Place} {content : ByteArray} {stamp : Nat} :
    fs'.find? p = some (.file content stamp) → stamp < fs.clock →
      fs.find? p = some (.file content stamp)
  /-- A directory stays. -/
  directory {p : Place} : fs.find? p = some .directory → fs'.find? p = some .directory
  /-- A directory was there before, or it was made. -/
  new {p : Place} {name : String} : fs'.find? (p ++ [name]) = some .directory →
    fs.find? (p ++ [name]) = some .directory ∨ made name
  /-- Under fixed names nothing changes. -/
  find?_fixed {p : Place} {name : String} :
    fixed name → fs'.find? (p ++ [name]) = fs.find? (p ++ [name])

namespace Later

theorem refl (fs : Files) : Later fixed made fs fs :=
  ⟨Nat.le_refl _, fun h _ => h, fun h => h, .inl, fun _ => rfl⟩

theorem trans {fs'' : Files} (h : Later fixed made fs fs') (h' : Later fixed made fs' fs'') :
    Later fixed made fs fs'' where
  clock_le := Nat.le_trans h.clock_le h'.clock_le
  old hf hs := h.old (h'.old hf (Nat.lt_of_lt_of_le hs h.clock_le)) hs
  directory hd := h'.directory (h.directory hd)
  new hd := (h'.new hd).elim h.new .inr
  find?_fixed hf := (h'.find?_fixed hf).trans (h.find?_fixed hf)

/-- What a change does. -/
theorem of_step (hs : Step fixed made fs fs') : Later fixed made fs fs' := by
  obtain ⟨p, name, hc, -, hdir, hf, hnew⟩ := hs.exists_changedAt
  refine ⟨hc.clock_le, fun {q content stamp} he hlt => ?_, fun {q} he => ?_, fun {q n} he => ?_,
    fun {q n} hn => ?_⟩
  -- What was written by the change bears a time that is not past.
  · by_cases hq : q = p ++ [name]
    · rcases hnew _ (hq ▸ he) with ⟨_, heq, -⟩ | ⟨heq, -⟩
      · cases heq
        exact absurd hlt (Nat.lt_irrefl _)
      · cases heq
    · rwa [← hc.find?_eq hq]
  · by_cases hq : q = p ++ [name]
    · exact absurd (hq ▸ he) hdir
    · rwa [hc.find?_eq hq]
  · by_cases hq : q ++ [n] = p ++ [name]
    · obtain ⟨-, hname⟩ := List.append_inj' hq rfl
      rcases hnew _ (hq ▸ he) with ⟨_, heq, -⟩ | ⟨-, hm⟩
      · cases heq
      · exact .inr (List.singleton_inj.1 hname ▸ hm)
    · exact .inl (by rwa [← hc.find?_eq hq])
  · refine hc.find?_eq fun hq => hf ?_
    obtain ⟨-, hname⟩ := List.append_inj' hq rfl
    exact List.singleton_inj.1 hname ▸ hn

/-- What one change does, any number of changes does. -/
theorem of_reflTransGen (h : Relation.ReflTransGen (Step fixed made) fs fs') :
    Later fixed made fs fs' := by
  induction h with
  | refl => exact refl fs
  | tail _ hs ih => exact ih.trans (of_step hs)

end Later

theorem Sound.reflTransGen (h : fs.Sound) (hs : Relation.ReflTransGen (Step fixed made) fs fs') :
    fs'.Sound := by
  induction hs with
  | refl => exact h
  | tail _ hs ih => exact ih.step hs

end Files

end Stencil
