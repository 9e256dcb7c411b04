import Stencil.Proofs.WorkspaceRuns

/-!
# Coherence of the cache

Loading a configuration is meant to give what would be computed at that moment. It does so at every
point of a run, as long as no file is called by a mere ending: such a file is a layer that is not
observed.

* `Workspace.Coherent`: loading gives what would be computed;
* `Workspace.coherent_after`: a run after which it does;
* `Workspace.coherent_after_iff`: the names of files with which every run does so.
-/

namespace Stencil

open Config (IsBare)

namespace Workspace

/-- Loading gives what would be computed, for every project. -/
def Coherent (w : Workspace) : Prop := ∀ (root : Option String) (validated : Bool),
  (load (root.map .ofString) validated w).2.result = (w.compute (root.map .ofString) validated).result

/-- What the configuration of a project may depend on. -/
def observed (w : Workspace) (root : Place) : Config.Observed := Config.observe w.files w.env root

/-- A workspace with a cold cache, where all digests are of one length. -/
structure Cold (w : Workspace) : Prop where
  cache : w.cache = .empty
  files : w.files.Sound
  cwd : w.cwd.IsClean
  length_digest (s : String) : (w.digest s).length = Digest.keptDigits

/-- The digests of what is observed along a run differ wherever the observations do. -/
def NoCollisions (w : Workspace) (as : List Action) : Prop :=
  ∀ bs cs, bs <+: as → cs <+: as → ∀ p q,
    w.digest (((w.after bs).observed p).value.literal?.getD "") =
      w.digest (((w.after cs).observed q).value.literal?.getD "") →
    (w.after bs).observed p = (w.after cs).observed q

variable {w : Workspace} {as : List Action}

/-- A configuration that is not in the cache is computed. -/
theorem load_result_of_find?_eq_none {root : Option FilePath} {validated : Bool}
    (h : w.cache.find? (w.keyOf (w.rootOf root) validated) = none) :
    (load root validated w).2.result = (w.compute root validated).result := by
  rw [load, h]
  dsimp only
  split
  · rfl
  · rfl

/-- After a run that leaves bare names alone, loading gives what would be computed. -/
theorem coherent_after (hw : w.Cold) (has : ∀ a ∈ as, a.Edits fun name => ¬IsBare name)
    (hno : w.NoCollisions as) : (w.after as).Coherent := by
  intro root validated
  cases hc : (w.after as).cache.find?
      ((w.after as).keyOf ((w.after as).placeOf root) validated) with
  | none => exact load_result_of_find?_eq_none hc
  | some config =>
    -- The configuration was computed at an earlier point, from the same observation.
    obtain ⟨bs, hbs, root', validated', hkey, hcompute⟩ := exists_origin hw.cache hc
    obtain ⟨hcwd, hdigest, hbundled⟩ := after_frame w as
    obtain ⟨hcwd', hdigest', hbundled'⟩ := after_frame w bs
    have hclean : ((w.after as).placeOf root).IsClean := isClean_placeOf (hcwd ▸ hw.cwd) root
    have hclean' : ((w.after bs).placeOf root').IsClean := isClean_placeOf (hcwd' ▸ hw.cwd) root'
    rw [keyOf, keyOf, hdigest, hdigest'] at hkey
    obtain ⟨hroot, rfl, hmark⟩ := Config.Cache.key_inj hw.length_digest hkey hclean hclean'
    have hobserve := hno as bs (List.prefix_refl as) hbs _ _ hmark
    -- Since then the files have changed step by step, and no bare name was touched.
    obtain ⟨cs, rfl⟩ := hbs
    obtain ⟨hasbs, hascs⟩ := List.forall_mem_append.1 has
    have hsound := hw.files.reflTransGen (reflTransGen_files_after hw.cwd hasbs)
    have hsteps := reflTransGen_files_after (w := w.after bs) (hcwd' ▸ hw.cwd) hascs
    rw [← after_append] at hsteps
    have hsame : (w.after (bs ++ cs)).compute (root.map .ofString) validated =
        (w.after bs).compute (root'.map .ofString) validated := by
      rw [hroot] at hobserve
      rw [compute, compute, hbundled, hbundled', ← placeOf, ← placeOf, hroot]
      exact Config.compute_eq_of_observe hsound (hsound.reflTransGen hsteps)
        (.of_reflTransGen hsteps) (by decide) hobserve.symm hclean' w.bundled validated
    rw [load_of_find? hc, hsame, hcompute]
    rfl

/-! ## Bare names -/

/-- A workspace without any file. -/
def vacant : Workspace where
  files := .empty
  env := []
  cwd := []
  bundled := "/data"
  digest := Digest.ofString
  cache := .empty

theorem cold_vacant : vacant.Cold :=
  ⟨rfl, .empty, fun _ hs => absurd hs List.not_mem_nil, Digest.length_ofString⟩

/-- A configuration is loaded, and then a file that is no text is written for it. -/
def staleRun (name : FileName) : List Action :=
  [.load none false, .write none name ⟨#[0xff]⟩]

theorem eq_of_isBare {name : FileName} (h : IsBare name.text) :
    name = ⟨".yaml", by decide⟩ ∨ name = ⟨".yml", by decide⟩ := by
  obtain ⟨text, hname⟩ := name
  exact h.imp (fun h => by subst h; rfl) fun h => by subst h; rfl

/-- Where no name of a file is observed, the variables are all that counts. -/
theorem observe_eq_of_forall_not {files : Files} {env : Variable.Environment}
    (h : ∀ e ∈ files.entries, ∀ name ∈ e.1.getLast?, ¬Config.isObservedName name) (root : Place) :
    Config.observe files env root = ⟨Variable.relevant env, []⟩ := by
  have hnames (p : Place) : (files.names p).filter Config.isObservedName = [] := by
    refine List.filter_eq_nil_iff.2 fun name hname => ?_
    obtain ⟨e, he, hlast⟩ := List.mem_filterMap.1 hname
    refine h e he name ?_
    rw [Files.getLast?_of_dropLast.1 hlast]
    exact List.getLast?_concat
  unfold Config.observe
  dsimp only
  rw [hnames]
  split <;> rfl

/-- Throughout the run, nothing is observed if the file is called by a mere ending. -/
theorem observed_staleRun {name : FileName} (h : IsBare name.text) {as : List Action}
    (has : as <+: staleRun name) (p : Place) : (vacant.after as).observed p = ⟨[], []⟩ := by
  rcases List.prefix_cons_iff.1 has with rfl | ⟨bs, rfl, hbs⟩
  · exact observe_eq_of_forall_not (by decide) p
  rcases List.prefix_cons_iff.1 hbs with rfl | ⟨cs, rfl, hcs⟩
  · exact observe_eq_of_forall_not (by decide) p
  obtain rfl := List.prefix_nil.1 hcs
  rcases eq_of_isBare h with rfl | rfl
  · refine (observe_eq_of_forall_not ?_ p).trans rfl
    decide +kernel
  · refine (observe_eq_of_forall_not ?_ p).trans rfl
    decide +kernel

/-- After the run the configuration is still found in the cache, as its key has stayed the same. -/
theorem load_staleRun {name : FileName} (h : IsBare name.text) :
    (load none false (vacant.after (staleRun name))).2.result =
      .ok (Mapping.merge [] Config.defaults) := by
  have hroot : (vacant.after (staleRun name)).rootOf none = [] :=
    (after_frame vacant (staleRun name)).1
  have hkey : (vacant.after (staleRun name)).keyOf [] false = vacant.keyOf [] false := by
    have hnow := observed_staleRun h (List.prefix_refl _) []
    have hthen := observed_staleRun h List.nil_prefix []
    rw [keyOf, keyOf, (after_frame vacant (staleRun name)).2.1]
    exact congrArg _ (hnow.trans hthen.symm)
  have hcold : (vacant.compute none false).result = .ok (Mapping.merge [] Config.defaults) := rfl
  have hcache : (vacant.after (staleRun name)).cache.find? (vacant.keyOf [] false) =
      some (Mapping.merge [] Config.defaults) := by
    rw [staleRun, after, List.foldl_cons, List.foldl_cons, List.foldl_nil, act, act, cache_writeLayer]
    exact find?_cache_load_self rfl hcold
  rw [load_of_find? (by rw [hroot, hkey, hcache])]
  rfl

theorem compute_staleRun {name : FileName} (h : IsBare name.text) :
    ((vacant.after (staleRun name)).compute none false).result = .error (.breach .undecodable) := by
  rcases eq_of_isBare h with rfl | rfl
  · decide +kernel
  · decide +kernel

/-- A file that is called by a mere ending is missed. -/
theorem not_coherent_after_staleRun {name : FileName} (h : IsBare name.text) :
    vacant.NoCollisions (staleRun name) ∧ ¬(vacant.after (staleRun name)).Coherent := by
  refine ⟨fun bs cs hbs hcs p q _ => ?_, fun hcoherent => ?_⟩
  · rw [observed_staleRun h hbs, observed_staleRun h hcs]
  · have hsame := hcoherent none false
    rw [Option.map_none, load_staleRun h, compute_staleRun h] at hsame
    cases hsame

/-- The names that files may be called by for every run to leave the cache coherent: all but those
    that are mere endings. -/
theorem coherent_after_iff (allowed : String → Prop) :
    (∀ w as, Cold w → (∀ a ∈ as, a.Edits allowed) → w.NoCollisions as → (w.after as).Coherent) ↔
      ¬allowed ".yaml" ∧ ¬allowed ".yml" := by
  constructor
  · intro h
    have hbare (name : FileName) (hname : IsBare name.text) : ¬allowed name.text := by
      intro hallowed
      obtain ⟨hno, hstale⟩ := not_coherent_after_staleRun hname
      refine hstale (h vacant (staleRun name) cold_vacant ?_ hno)
      exact List.forall_mem_cons.2 ⟨trivial, List.forall_mem_singleton.2 hallowed⟩
    exact ⟨hbare ⟨".yaml", by decide⟩ (.inl rfl), hbare ⟨".yml", by decide⟩ (.inr rfl)⟩
  · rintro ⟨hyaml, hyml⟩ w as hw has hno
    have hnot {name : String} (hname : allowed name) : ¬IsBare name := by
      rintro (rfl | rfl)
      · exact hyaml hname
      · exact hyml hname
    exact coherent_after hw (fun a ha => (has a ha).mono fun _ => hnot) hno

/-- After a configuration was loaded, a file `.yaml` is written for it, and loading gives what it gave
    before. -/
theorem not_coherent_after_write_yaml :
    let as : List Action := [.load none false, .write none ⟨".yaml", by decide⟩ ⟨#[0xff]⟩]
    Cold vacant ∧ vacant.NoCollisions as ∧ ¬(vacant.after as).Coherent :=
  ⟨cold_vacant, not_coherent_after_staleRun (.inl rfl)⟩

end Workspace

end Stencil
