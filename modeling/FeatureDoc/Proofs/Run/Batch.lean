import FeatureDoc.Proofs.Computation
import FeatureDoc.Proofs.Files.Path
import FeatureDoc.Run.Execute

/-!
# Batches of files

The paths of a run stand for a list of files, whose texts are read one after another into a summary.
A path that stands for nothing, or something that cannot be read, stops this.

* `Disk.PathFault` says what can be wrong with a path. `Disk.collect_eq_error_iff` says that the
  first path with a fault is what is reported, and `Disk.featureFiles_eq_error_iff` the same of a
  walk below a directory.
* `Summary.ofSources` is what a list of texts holds. `Summary.addSource` puts one more text behind
  it (`Summary.addSource_eq`), so a batch that is read gives the summary of its texts
  (`Summary.readFiles_eq_ok`). One file that cannot be read leaves nothing of the others
  (`Summary.readFiles_eq_error`).
-/

namespace FeatureDoc

/-- Where a list has its first member with a property. -/
theorem exists_split_of_find? {α : Type} {p : α → Prop} [DecidablePred p] {xs : List α} {x : α}
    (h : xs.find? (fun y => decide (p y)) = some x) :
    p x ∧ ∃ before after, xs = before ++ x :: after ∧ ∀ y ∈ before, ¬ p y := by
  simpa only [decide_eq_true_eq, Bool.not_eq_true', decide_eq_false_iff_not] using
    List.find?_eq_some_iff_append.1 h

theorem exists_find?_eq_some {α : Type} {p : α → Prop} [DecidablePred p] {xs : List α}
    (h : ∃ x ∈ xs, p x) : ∃ x, xs.find? (fun y => decide (p y)) = some x := by
  obtain ⟨x, hx, hp⟩ := h
  exact Option.isSome_iff_exists.1 (List.find?_isSome.2 ⟨x, hx, decide_eq_true hp⟩)

/-! ## Finding files -/

namespace Disk

variable {disk : Disk} {path : String} {paths : List String} {e : RunError}

/-- What is wrong with something that a walk comes upon. -/
inductive VisitFault : Visit → RunError → Prop where
  /-- A regular file that is called a feature file has a path that is not text. -/
  | name {shown : String} (h : Path.EndsIn "feature" shown) :
    VisitFault (.entry ⟨.bytes shown, true⟩) (.unreadable (.name shown))
  /-- A place cannot be read. -/
  | directory (reason : String) : VisitFault (.failure reason) (.unreadable (.directory reason))

/-- What is wrong with a path. -/
inductive PathFault (disk : Disk) (path : String) : RunError → Prop where
  /-- It stands for nothing. -/
  | missing (h : disk.find path = .missing) : PathFault disk path (.pathNotFound path)
  /-- It stands for a directory below which something is wrong. -/
  | below {walk : List Visit} {e : RunError} (h : disk.find path = .directory walk)
      (he : FirstFault VisitFault walk e) : PathFault disk path e

theorem featureFile?_eq_error_iff {v : Visit} : featureFile? v = .error e ↔ VisitFault v e := by
  constructor
  · intro h
    cases v with
    | loop => cases h
    | failure reason =>
      cases h
      exact .directory reason
    | entry found =>
      obtain ⟨path, isFile⟩ := found
      rw [featureFile?] at h
      split at h
      · next hfile =>
        obtain ⟨rfl, hname⟩ := Bool.and_eq_true_iff.1 hfile
        cases path with
        | text path => cases h
        | bytes shown =>
          cases h
          exact .name (Path.hasExtension_iff.1 hname)
      · cases h
  · rintro (⟨hshown⟩ | ⟨reason⟩)
    · have hfile : isFeatureFile ⟨.bytes _, true⟩ = true := Path.hasExtension_iff.2 hshown
      rw [featureFile?, if_pos hfile]
    · rfl

/-- The first thing that is wrong below a directory is what is reported. -/
theorem featureFiles_eq_error_iff {walk : List Visit} :
    featureFiles walk = .error e ↔ FirstFault VisitFault walk e := by
  refine (bind_eq_error_iff_of_ok fun found => ⟨_, rfl⟩).trans (mapM_eq_error_iff.trans ?_)
  exact firstFault_congr fun v _ e => featureFile?_eq_error_iff

theorem filesAt_eq_error_iff : disk.filesAt path = .error e ↔ disk.PathFault path e := by
  rw [filesAt]
  constructor
  · intro h
    split at h
    · next hfind =>
      cases h
      exact .missing hfind
    · cases h
    · next walk hfind => exact .below hfind (featureFiles_eq_error_iff.1 h)
  · rintro (⟨hfind⟩ | ⟨hfind, he⟩)
    · rw [hfind]
    · rw [hfind]
      exact featureFiles_eq_error_iff.2 he

/-- The first path with a fault is what is reported. -/
theorem collect_eq_error_iff : disk.collect paths = .error e ↔ FirstFault disk.PathFault paths e := by
  have hmap : disk.collect paths = paths.mapM disk.filesAt >>= fun parts => .ok parts.flatten := by
    rw [collect]
    cases paths.mapM disk.filesAt <;> rfl
  rw [hmap, bind_eq_error_iff_of_ok fun parts => ⟨_, rfl⟩, mapM_eq_error_iff]
  exact firstFault_congr fun path _ e => filesAt_eq_error_iff

/-- Paths without faults stand for files. -/
theorem exists_collect_eq_ok (h : ∀ path ∈ paths, ∀ e, ¬ disk.PathFault path e) :
    ∃ parts, disk.collect paths = .ok parts.flatten ∧
      List.Forall₂ (fun path files => disk.filesAt path = .ok files) paths parts := by
  have hfails : ¬ Fails (paths.mapM disk.filesAt) := by
    rintro ⟨e, he⟩
    obtain ⟨front, path, back, rfl, -, hpath⟩ := mapM_eq_error_iff.1 he
    exact h path (List.mem_append_right _ List.mem_cons_self) e (filesAt_eq_error_iff.1 hpath)
  obtain ⟨parts, hparts⟩ := not_fails_iff.1 hfails
  refine ⟨parts, ?_, mapM_eq_ok_iff.1 hparts⟩
  rw [collect, hparts]
  rfl

/-- A fault is one of three. -/
theorem PathFault.cases (h : disk.PathFault path e) : e = .pathNotFound path ∨
    (∃ shown, e = .unreadable (.name shown)) ∨ ∃ reason, e = .unreadable (.directory reason) := by
  rcases h with ⟨-⟩ | ⟨-, -, v, -, -, -, hv⟩
  · exact .inl rfl
  · rcases hv with ⟨-⟩ | ⟨reason⟩
    · exact .inr (.inl ⟨_, rfl⟩)
    · exact .inr (.inr ⟨reason, rfl⟩)

end Disk

/-! ## Reading texts -/

namespace Summary

/-- What some texts hold, each of which comes with the path of its file: the features of those that
are documents, and the errors of the others. -/
def ofSources (sources : List (String × String)) : Summary where
  features := ⟨sources.flatMap fun (_, text) =>
    match parse text with
    | .ok set => set.features
    | .error _ => []⟩
  failures := sources.filterMap fun (path, text) =>
    match parse text with
    | .ok _ => none
    | .error failure => some ⟨path, failure.errors⟩

/-- One summary behind another. -/
def append (s s' : Summary) : Summary := ⟨s.features.merge s'.features, s.failures ++ s'.failures⟩

theorem append_assoc (s s' s'' : Summary) :
    (s.append s').append s'' = s.append (s'.append s'') := by
  simp only [append, FeatureSet.merge, List.append_assoc]

@[simp]
theorem append_empty (s : Summary) : s.append empty = s := by
  simp only [append, empty, FeatureSet.merge, FeatureSet.empty, List.append_nil]

@[simp]
theorem empty_append (s : Summary) : empty.append s = s := rfl

theorem ofSources_append (sources sources' : List (String × String)) :
    ofSources (sources ++ sources') = (ofSources sources).append (ofSources sources') := by
  simp only [ofSources, append, FeatureSet.merge, List.flatMap_append, List.filterMap_append]

/-- A text is added behind those before it. -/
theorem addSource_eq (s : Summary) (path text : String) :
    s.addSource path text = s.append (ofSources [(path, text)]) := by
  cases hparse : parse text with
  | ok set =>
    simp only [addSource, append, ofSources, hparse, FeatureSet.merge, List.flatMap_singleton,
      List.filterMap_cons, List.filterMap_nil, List.append_nil]
  | error failure =>
    simp only [addSource, append, ofSources, hparse, FeatureSet.merge, List.flatMap_singleton,
      List.filterMap_cons, List.filterMap_nil, List.append_nil]

/-- There are failures if some text is no document. -/
theorem hasFailures_ofSources {sources : List (String × String)} :
    (ofSources sources).hasFailures = true ↔
      ∃ source ∈ sources, ∃ failure, parse source.2 = .error failure := by
  rw [hasFailures, Bool.not_eq_true', List.isEmpty_eq_false_iff_exists_mem]
  simp only [ofSources, List.mem_filterMap]
  constructor
  · rintro ⟨failed, source, hmem, hfailed⟩
    cases hparse : parse source.2 with
    | ok set => simp only [hparse, reduceCtorEq] at hfailed
    | error failure => exact ⟨source, hmem, failure, hparse⟩
  · rintro ⟨source, hmem, failure, hparse⟩
    exact ⟨⟨source.1, failure.errors⟩, source, hmem, by simp only [hparse]⟩

end Summary

/-! ## Reading files -/

/-- The texts of those files that can be read, with their paths. -/
def Disk.sources (disk : Disk) (files : List String) : List (String × String) :=
  files.filterMap fun path => (disk.read? path).map (path, ·)

theorem Disk.mem_sources {disk : Disk} {files : List String} {path text : String} :
    (path, text) ∈ disk.sources files ↔ path ∈ files ∧ disk.read? path = some text := by
  simp only [sources, List.mem_filterMap, Option.map_eq_some_iff, Prod.mk.injEq]
  constructor
  · rintro ⟨_, hmem, _, hread, rfl, rfl⟩
    exact ⟨hmem, hread⟩
  · rintro ⟨hmem, hread⟩
    exact ⟨path, hmem, text, hread, rfl, rfl⟩

namespace Summary

variable {disk : Disk} {files : List String}

/-- Read one more file. -/
def addFile (disk : Disk) (s : Summary) (path : String) : Except RunError Summary :=
  match disk.read? path with
  | some text => .ok (s.addSource path text)
  | none => .error (.unreadable (.file path))

theorem readFiles_eq_foldlM : readFiles disk files = files.foldlM (addFile disk) empty := rfl

theorem foldlM_addFile (s : Summary) (h : ∀ path ∈ files, disk.read? path ≠ none) :
    files.foldlM (addFile disk) s = .ok (s.append (ofSources (disk.sources files))) := by
  induction files generalizing s with
  | nil => exact congrArg _ s.append_empty.symm
  | cons path files ih =>
    rw [List.forall_mem_cons] at h
    obtain ⟨text, htext⟩ := Option.ne_none_iff_exists'.1 h.1
    have hadd : addFile disk s path = .ok (s.append (ofSources [(path, text)])) := by
      rw [← addSource_eq, addFile, htext]
    have hsources : disk.sources (path :: files) = [(path, text)] ++ disk.sources files := by
      simp only [Disk.sources, List.filterMap_cons, htext, Option.map_some, List.singleton_append]
    rw [List.foldlM_cons, hadd, hsources, ofSources_append, ← append_assoc]
    exact ih _ h.2

/-- Files that can be read give the summary of their texts. -/
theorem readFiles_eq_ok (h : ∀ path ∈ files, disk.read? path ≠ none) :
    readFiles disk files = .ok (ofSources (disk.sources files)) := by
  rw [readFiles_eq_foldlM, foldlM_addFile empty h, empty_append]

/-- The first file that cannot be read is what is reported, and nothing of the files before it. -/
theorem readFiles_eq_error {path : String}
    (h : files.find? (fun p => disk.read? p = none) = some path) :
    readFiles disk files = .error (.unreadable (.file path)) := by
  obtain ⟨hpath, before, after, rfl, hbefore⟩ := exists_split_of_find? h
  have hstep (s : Summary) : addFile disk s path = .error (.unreadable (.file path)) := by
    rw [addFile, hpath]
  rw [readFiles_eq_foldlM, List.foldlM_append, foldlM_addFile empty hbefore]
  change (path :: after).foldlM (addFile disk) _ = _
  rw [List.foldlM_cons, hstep]
  rfl

end Summary

end FeatureDoc
