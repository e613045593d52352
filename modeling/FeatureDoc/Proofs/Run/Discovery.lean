import FeatureDoc.Proofs.Files.FileSystem
import FeatureDoc.Proofs.Run.Batch

/-!
# Found files, in whatever order a walk comes upon them

The files that are found depend on what stands at the paths, and not on the order in which a walk
comes upon what is below a directory. The same holds of the error that stops a search, unless a
directory holds several things that could.

* `Folder.Lists` says which files a directory contributes, in which order; `Folder.lists_files` and
  `Folder.featureFiles_of_perm` say that these are found.
* `Folder.Fault` says what stops a search below a directory, `FileSystem.Fault` what stops it at a
  path.
* `Disk.collect_of_shows` is the main statement.
-/

namespace FeatureDoc

/-! ## Walks -/

namespace Disk

/-- The feature file that a walk comes upon, if nothing is wrong with it. -/
def file? : Visit → Option String
  | .entry ⟨.text path, isFile⟩ =>
    if isFile && Path.hasExtension "feature" path then some path else none
  | _ => none

theorem featureFile?_of_not_fault {v : Visit} (h : ∀ e, ¬ VisitFault v e) :
    featureFile? v = .ok (file? v) := by
  rcases v with ⟨⟨path | shown, isFile⟩⟩ | _ | reason
  · by_cases hfile : (isFile && Path.hasExtension "feature" path) = true <;>
      simp [featureFile?, file?, isFeatureFile, EntryPath.shown, hfile]
  · rw [featureFile?, if_neg]
    · rfl
    · intro hfile
      exact h _ (featureFile?_eq_error_iff.1 (if_pos hfile))
  · rfl
  · exact absurd (.directory reason) (h _)

/-- A walk without faults finds all feature files that it comes upon. -/
theorem featureFiles_eq_ok {walk : List Visit} (h : ∀ v ∈ walk, ∀ e, ¬ VisitFault v e) :
    featureFiles walk = .ok ((walk.filterMap file?).mergeSort Path.le) := by
  have hfound : walk.mapM featureFile? = .ok (walk.map file?) := by
    rw [mapM_eq_ok_iff, List.forall₂_map_right_iff, List.forall₂_same]
    exact fun v hv => featureFile?_of_not_fault (h v hv)
  rw [featureFiles, hfound]
  change Except.ok (((walk.map file?).filterMap id).mergeSort Path.le) = _
  rw [List.filterMap_map, Function.id_comp]

end Disk

/-! ## Directories -/

namespace Folder

variable {f : Folder} {base : String}

/-- A way ends in the name of a feature file. -/
def IsFeatureWay (way : List String) : Prop :=
  ∃ name, way.getLast? = some name ∧ Path.NameEndsIn "feature" name

/-- A directory contributes each regular file below it that is called a feature file once, in the
order of the components of their paths. -/
def Lists (f : Folder) (base : String) (files : List String) : Prop :=
  ∃ ways : List (List String), files = ways.map (Path.spell base) ∧ ways.Nodup ∧
    (∀ way, way ∈ ways ↔ (way, true) ∈ f.entries ∧ IsFeatureWay way) ∧ files.Pairwise Path.Before

/-- What stops a search below a directory. -/
inductive Fault (f : Folder) (base : String) : RunError → Prop where
  /-- A regular file that is called a feature file, with a name on the way to it that is not text. -/
  | name {way : List String} (hway : (way, true) ∈ f.strays) (hname : IsFeatureWay way) :
    Fault f base (.unreadable (.name (Path.spell base way)))
  /-- A place that cannot be read. -/
  | directory {reason : String} (h : reason ∈ f.failures) :
    Fault f base (.unreadable (.directory reason))

/-- The entries that are feature files. -/
def features (f : Folder) (base : String) : List (List String × Bool) :=
  f.entries.filter fun entry => entry.2 && Path.hasExtension "feature" (Path.spell base entry.1)

theorem endsIn_spell_iff {entry : List String × Bool} (h : entry ∈ f.entries ++ f.strays) :
    Path.EndsIn "feature" (Path.spell base entry.1) ↔ IsFeatureWay entry.1 :=
  Path.endsIn_spell_iff (f.ne_nil entry h) (f.isName entry h)

theorem mem_features {entry : List String × Bool} :
    entry ∈ f.features base ↔ entry ∈ f.entries ∧ entry.2 = true ∧ IsFeatureWay entry.1 := by
  rw [features, List.mem_filter, Bool.and_eq_true, Path.hasExtension_iff]
  exact and_congr_right fun hmem =>
    and_congr_right fun _ => endsIn_spell_iff (List.mem_append_left _ hmem)

/-- Different entries have different components. -/
theorem nodup_components (f : Folder) (base : String) :
    ((f.features base).map fun entry => Path.components (Path.spell base entry.1)).Nodup := by
  have hentries : ((f.entries.map Prod.fst).map
      fun way => Path.components (Path.spell base way)).Nodup := by
    refine f.nodup.map_on fun way hway way' hway' heq => ?_
    obtain ⟨entry, hentry, rfl⟩ := List.mem_map.1 hway
    obtain ⟨entry', hentry', rfl⟩ := List.mem_map.1 hway'
    have hmem := List.mem_append_left f.strays hentry
    have hmem' := List.mem_append_left f.strays hentry'
    exact Path.components_spell_inj (f.ne_nil entry hmem) (f.ne_nil entry' hmem')
      (f.isName entry hmem) (f.isName entry' hmem') heq
  rw [List.map_map] at hentries
  exact hentries.sublist (List.filter_sublist.map _)

/-- The files that a directory contributes. -/
def files (f : Folder) (base : String) : List String :=
  ((f.features base).map fun entry => Path.spell base entry.1).mergeSort Path.le

theorem lists_files (f : Folder) (base : String) : f.Lists base (f.files base) := by
  have hnodup : (((f.features base).map fun entry => Path.spell base entry.1).map
      Path.components).Nodup := by
    rw [List.map_map]
    exact f.nodup_components base
  -- sorting the paths is sorting the ways
  refine ⟨((f.features base).map Prod.fst).mergeSort fun way way' =>
    Path.le (Path.spell base way) (Path.spell base way'), ?_, ?_, fun way => ?_,
    Path.pairwise_mergeSort_before hnodup⟩
  · rw [List.map_mergeSort (s := Path.le) fun _ _ _ _ => rfl, List.map_map]
    rfl
  · exact (List.mergeSort_perm _ _).nodup_iff.2 (f.nodup.sublist (List.filter_sublist.map _))
  · rw [List.mem_mergeSort, List.mem_map]
    constructor
    · rintro ⟨⟨_, _⟩, hmem, rfl⟩
      obtain ⟨hentry, rfl, hway⟩ := mem_features.1 hmem
      exact ⟨hentry, hway⟩
    · rintro ⟨hentry, hway⟩
      exact ⟨(way, true), mem_features.2 ⟨hentry, rfl, hway⟩, rfl⟩

theorem mem_listing {v : Visit} : v ∈ f.listing base ↔
    (∃ entry ∈ f.entries, v = .entry ⟨.text (Path.spell base entry.1), entry.2⟩) ∨
    (∃ entry ∈ f.strays, v = .entry ⟨.bytes (Path.spell base entry.1), entry.2⟩) ∨
    ∃ reason ∈ f.failures, v = .failure reason := by
  simp only [listing, List.mem_append, List.mem_map, eq_comm, or_assoc]

/-- What stops a search below a directory is something that a walk comes upon. -/
theorem fault_iff {e : RunError} : f.Fault base e ↔ ∃ v ∈ f.listing base, Disk.VisitFault v e := by
  simp only [mem_listing]
  constructor
  · rintro (@⟨way, hway, hname⟩ | @⟨reason, hreason⟩)
    · exact ⟨_, .inr (.inl ⟨(way, true), hway, rfl⟩),
        .name ((endsIn_spell_iff (List.mem_append_right _ hway)).2 hname)⟩
    · exact ⟨_, .inr (.inr ⟨reason, hreason, rfl⟩), .directory reason⟩
  · rintro ⟨v, ⟨entry, -, rfl⟩ | ⟨⟨way, isFile⟩, hmem, rfl⟩ | ⟨reason, hreason, rfl⟩, hv⟩
    · cases hv
    · cases hv with
      | name hshown => exact .name hmem ((endsIn_spell_iff (List.mem_append_right _ hmem)).1 hshown)
    · cases hv
      exact .directory hreason

theorem filterMap_listing (f : Folder) (base : String) : (f.listing base).filterMap Disk.file? =
    (f.features base).map fun entry => Path.spell base entry.1 := by
  have hentries : (f.entries.map fun entry =>
      Visit.entry ⟨.text (Path.spell base entry.1), entry.2⟩).filterMap Disk.file? =
        (f.features base).map fun entry => Path.spell base entry.1 := by
    rw [List.filterMap_map, features, ← List.filterMap_eq_map, ← List.filterMap_eq_filter,
      List.filterMap_filterMap]
    refine List.filterMap_congr fun entry _ => ?_
    simp only [Function.comp_apply, Disk.file?, Option.guard]
    split <;> rfl
  have hstrays : (f.strays.map fun entry =>
      Visit.entry ⟨.bytes (Path.spell base entry.1), entry.2⟩).filterMap Disk.file? = [] := by
    simp [List.filterMap_map, Function.comp_def, Disk.file?]
  have hfailures : (f.failures.map Visit.failure).filterMap Disk.file? = [] := by
    simp [List.filterMap_map, Function.comp_def, Disk.file?]
  rw [listing, List.filterMap_append, List.filterMap_append, hentries, hstrays, hfailures,
    List.append_nil, List.append_nil]

section Walk

variable {walk : List Visit} (h : walk.Perm (f.listing base))

include h

/-- A walk is stopped by something that stops searches below the directory. -/
theorem fault_of_firstFault {e : RunError} (he : FirstFault Disk.VisitFault walk e) :
    f.Fault base e := by
  obtain ⟨front, v, back, rfl, -, hv⟩ := he
  exact fault_iff.2 ⟨v, h.subset (List.mem_append_right _ List.mem_cons_self), hv⟩

theorem not_firstFault_iff :
    (∀ e, ¬ FirstFault Disk.VisitFault walk e) ↔ ∀ e, ¬ f.Fault base e := by
  simp only [forall_not_firstFault_iff, fault_iff, not_exists, not_and, h.mem_iff]
  exact ⟨fun hwalk e v hv => hwalk v hv e, fun hfault v hv e => hfault e v hv⟩

/-- The order of a walk does not matter to what it finds. -/
theorem featureFiles_of_perm (hfault : ∀ e, ¬ f.Fault base e) :
    Disk.featureFiles walk = .ok (f.files base) := by
  have hperm : (walk.filterMap Disk.file?).Perm
      ((f.features base).map fun entry => Path.spell base entry.1) :=
    f.filterMap_listing base ▸ h.filterMap _
  have hwalk := forall_not_firstFault_iff.1 ((not_firstFault_iff h).2 hfault)
  rw [Disk.featureFiles_eq_ok hwalk]
  refine congrArg _ (Path.mergeSort_eq_of_perm ?_ hperm.symm).symm
  rw [List.map_map]
  exact f.nodup_components base

end Walk

/-- A directory contributes one list of files only. -/
theorem Lists.unique {files files' : List String} (h : f.Lists base files)
    (h' : f.Lists base files') : files = files' := by
  obtain ⟨ways, rfl, hnodup, hmem, hsorted⟩ := h
  obtain ⟨ways', rfl, hnodup', hmem', hsorted'⟩ := h'
  have hperm : ways.Perm ways' :=
    (List.perm_ext_iff_of_nodup hnodup hnodup').2 fun way => (hmem way).trans (hmem' way).symm
  exact (hperm.map _).eq_of_pairwise (fun _ _ _ _ hpq hqp => absurd hqp (lt_asymm hpq)) hsorted
    hsorted'

end Folder

/-! ## Paths -/

namespace FileSystem

/-- The files that a path stands for. -/
inductive StandsFor (fs : FileSystem) (path : String) : List String → Prop where
  /-- A file stands for itself. -/
  | file (h : fs path = some .file) : StandsFor fs path [path]
  /-- A directory stands for what it contributes. -/
  | folder {f : Folder} {files : List String} (h : fs path = some (.folder f))
      (hfiles : f.Lists path files) : StandsFor fs path files

/-- A path stands for one list of files only. -/
theorem StandsFor.unique {fs : FileSystem} {path : String} {files files' : List String}
    (h : fs.StandsFor path files) (h' : fs.StandsFor path files') : files = files' := by
  rcases h with ⟨h⟩ | ⟨h, hfiles⟩ <;> rcases h' with ⟨h'⟩ | ⟨h', hfiles'⟩ <;>
    cases h.symm.trans h'
  · rfl
  · exact hfiles.unique hfiles'

/-- What stops a search at a path. -/
inductive Fault (fs : FileSystem) (path : String) : RunError → Prop where
  /-- Nothing stands there. -/
  | missing (h : fs path = none) : Fault fs path (.pathNotFound path)
  /-- A directory stands there, and something below it stops the search. -/
  | below {f : Folder} {e : RunError} (h : fs path = some (.folder f)) (he : f.Fault path e) :
    Fault fs path e

end FileSystem

namespace Disk

variable {disk : Disk} {fs : FileSystem}

section Found

variable (h : disk.Shows fs) {path : String}

include h

theorem Shows.find_of_none (hpath : fs path = none) : disk.find path = .missing := by
  simpa only [hpath] using h path

theorem Shows.find_of_file (hpath : fs path = some .file) : disk.find path = .file := by
  simpa only [hpath] using h path

theorem Shows.find_of_folder {f : Folder} (hpath : fs path = some (.folder f)) :
    ∃ walk, disk.find path = .directory walk ∧ walk.Perm (f.listing path) := by
  simpa only [hpath] using h path

/-- A disk has the faults of the file system that it shows: of those at one path, the first one on
the walk. -/
theorem Shows.fault_of_pathFault {e : RunError} (he : disk.PathFault path e) : fs.Fault path e := by
  cases hpath : fs path with
  | none =>
    rcases he with ⟨-⟩ | ⟨hfind, -⟩
    · exact .missing hpath
    · simp [h.find_of_none hpath] at hfind
  | some node =>
    cases node with
    | file => rcases he with ⟨hfind⟩ | ⟨hfind, -⟩ <;> simp [h.find_of_file hpath] at hfind
    | folder f =>
      obtain ⟨walk, hwalk, hperm⟩ := h.find_of_folder hpath
      rcases he with ⟨hfind⟩ | ⟨hfind, he⟩
      · simp [hwalk] at hfind
      · cases hwalk.symm.trans hfind
        exact .below hpath (Folder.fault_of_firstFault hperm he)

theorem Shows.exists_pathFault {e : RunError} (he : fs.Fault path e) :
    ∃ e', disk.PathFault path e' := by
  rcases he with ⟨hpath⟩ | ⟨hpath, he⟩
  · exact ⟨_, .missing (h.find_of_none hpath)⟩
  · obtain ⟨walk, hwalk, hperm⟩ := h.find_of_folder hpath
    by_contra hnone
    refine (Folder.not_firstFault_iff hperm).1 (fun e' he' => ?_) e he
    exact hnone ⟨e', .below hwalk he'⟩

/-- What is found at a path is what it stands for. -/
theorem Shows.standsFor {files : List String} (hfiles : disk.filesAt path = .ok files) :
    fs.StandsFor path files := by
  have hfault : ∀ e, ¬ fs.Fault path e := by
    intro e he
    obtain ⟨e', he'⟩ := h.exists_pathFault he
    cases hfiles.symm.trans (filesAt_eq_error_iff.2 he')
  cases hnode : fs path with
  | none => exact absurd (.missing hnode) (hfault _)
  | some node =>
    cases node with
    | file =>
      rw [filesAt, h.find_of_file hnode] at hfiles
      cases hfiles
      exact .file hnode
    | folder f =>
      obtain ⟨walk, hwalk, hperm⟩ := h.find_of_folder hnode
      have hfolder := Folder.featureFiles_of_perm hperm fun e he => hfault e (.below hnode he)
      rw [filesAt, hwalk] at hfiles
      cases hfolder.symm.trans hfiles
      exact .folder hnode (f.lists_files path)

end Found

/-- Two disks that show the same file system find the same at a path, unless there are several
things that could stop the search. -/
theorem Shows.filesAt_eq {disk' : Disk} (h : disk.Shows fs) (h' : disk'.Shows fs) {path : String}
    (hone : ∀ e e', fs.Fault path e → fs.Fault path e' → e = e') :
    disk'.filesAt path = disk.filesAt path := by
  cases hfiles : disk.filesAt path with
  | error e =>
    have he := h.fault_of_pathFault (filesAt_eq_error_iff.1 hfiles)
    obtain ⟨e', he'⟩ := h'.exists_pathFault he
    rw [hone e e' he (h'.fault_of_pathFault he')]
    exact filesAt_eq_error_iff.2 he'
  | ok files =>
    cases hfiles' : disk'.filesAt path with
    | error e =>
      have he := h'.fault_of_pathFault (filesAt_eq_error_iff.1 hfiles')
      obtain ⟨e', he'⟩ := h.exists_pathFault he
      cases hfiles.symm.trans (filesAt_eq_error_iff.2 he')
    | ok files' => rw [(h.standsFor hfiles).unique (h'.standsFor hfiles')]

/-- **Found files do not depend on the order in which walks come upon them.** The first path at
which something stops the search decides: a missing path is reported as such, and of what is below
a directory, whatever comes first on the walk. If nothing stops the search, each path contributes
what it stands for, in the order of the paths. Two disks that show the same file system differ at
most in which of several errors below one directory they report. -/
theorem collect_of_shows (h : disk.Shows fs) (paths : List String) :
    (∀ before path after, paths = before ++ path :: after → (∀ p ∈ before, ∀ e, ¬ fs.Fault p e) →
      (fs path = none → disk.collect paths = .error (.pathNotFound path)) ∧
      ((∃ e, fs.Fault path e) →
        ∃ e, fs.Fault path e ∧ disk.PathFault path e ∧ disk.collect paths = .error e)) ∧
    ((∀ path ∈ paths, ∀ e, ¬ fs.Fault path e) →
      ∃ parts, disk.collect paths = .ok parts.flatten ∧ List.Forall₂ fs.StandsFor paths parts) ∧
    ∀ disk' : Disk, disk'.Shows fs →
      (∀ path ∈ paths, ∀ e e', fs.Fault path e → fs.Fault path e' → e = e') →
        disk'.collect paths = disk.collect paths := by
  refine ⟨?_, fun hfound => ?_, fun disk' h' hone => ?_⟩
  · rintro before path after rfl hbefore
    have hcollect {e : RunError} (he : disk.PathFault path e) :
        disk.collect (before ++ path :: after) = .error e :=
      collect_eq_error_iff.2
        ⟨before, path, after, rfl, fun p hp e he => hbefore p hp e (h.fault_of_pathFault he), he⟩
    constructor
    · exact fun hpath => hcollect (.missing (h.find_of_none hpath))
    · rintro ⟨e, he⟩
      obtain ⟨e', he'⟩ := h.exists_pathFault he
      exact ⟨e', h.fault_of_pathFault he', he', hcollect he'⟩
  · obtain ⟨parts, hcollect, hparts⟩ := exists_collect_eq_ok fun path hpath e he =>
      hfound path hpath e (h.fault_of_pathFault he)
    exact ⟨parts, hcollect, hparts.imp fun _ _ hfiles => h.standsFor hfiles⟩
  · rw [collect, collect, mapM_congr fun path hpath => h.filesAt_eq h' (hone path hpath)]

/-- The disk on which each walk goes backwards. -/
def reversed (disk : Disk) : Disk where
  find path :=
    match disk.find path with
    | .directory walk => .directory walk.reverse
    | found => found
  read? := disk.read?

theorem Shows.reversed (h : disk.Shows fs) : disk.reversed.Shows fs := by
  intro path
  cases hpath : fs path with
  | none => simp [Disk.reversed, h.find_of_none hpath]
  | some node =>
    cases node with
    | file => simp [Disk.reversed, h.find_of_file hpath]
    | folder f =>
      obtain ⟨walk, hfind, hperm⟩ := h.find_of_folder hpath
      exact ⟨walk.reverse, by simp [Disk.reversed, hfind], walk.reverse_perm.trans hperm⟩

/-- A tree in which the order of paths is not that of their texts. -/
def sampleTree : FileTree :=
  ["x.txt", "d/a.x/z.feature", "d/a/c.FEATURE", "d/n.txt", "d/.feature"].foldl
    (fun t path => t.addFile path ⟨#[]⟩) .empty

theorem sampleTree_wellFormed : sampleTree.WellFormed := ⟨by decide +kernel, by decide +kernel⟩

/-- A feature file beside another one whose name is not text. -/
def strayFolder : Folder where
  entries := [(["a.feature"], true)]
  strays := [(["bad\uFFFD.feature"], true)]
  failures := []
  nodup := by decide
  ne_nil := by decide
  isName := by decide +kernel

/-- A feature file beside a directory that cannot be read. -/
def lockedFolder : Folder where
  entries := [(["a.feature"], true), (["x"], false)]
  strays := []
  failures := ["Permission denied (os error 13)"]
  nodup := by decide
  ne_nil := by decide
  isName := by decide +kernel

/-- The file system in which there is one directory only. -/
def only (path : String) (f : Folder) : FileSystem := fun p =>
  if p = path then some (.folder f) else none

theorem collect_of_shows_reversed :
    let fs := FileTree.view sampleTree_wellFormed
    let disk := sampleTree.toDisk.reversed
    let locked := (only "d" lockedFolder).toDisk
    (disk.Shows fs ∧
      disk.collect ["x.txt", "gone", "d/"] = .error (.pathNotFound "gone") ∧
      disk.collect ["x.txt", "d/"] = .ok ["x.txt", "d/a/c.FEATURE", "d/a.x/z.feature"] ∧
      sampleTree.toDisk.collect ["x.txt", "d/"] = disk.collect ["x.txt", "d/"]) ∧
    locked.Shows (only "d" lockedFolder) ∧
      ∃ e, (only "d" lockedFolder).Fault "d" e ∧ locked.collect ["d", "gone"] = .error e := by
  intro fs disk locked
  have hdisk : sampleTree.toDisk.Shows fs := FileTree.shows_toDisk sampleTree_wellFormed
  have hgone : fs "gone" = none := Option.map_eq_none_iff.2 (by decide +kernel)
  have hfile : fs "x.txt" = some .file :=
    Option.map_eq_some_iff.2 ⟨["x.txt"], by decide +kernel, if_neg (by decide +kernel)⟩
  have hfolder : fs "d/" = some (.folder (FileTree.folder sampleTree_wellFormed "d/" ["d"])) :=
    Option.map_eq_some_iff.2 ⟨["d"], by decide +kernel, if_pos (by decide +kernel)⟩
  have hsorted : (FileTree.folder sampleTree_wellFormed "d/" ["d"]).files "d/" =
      ["d/a/c.FEATURE", "d/a.x/z.feature"] :=
    Path.mergeSort_eq_of_before (by decide +kernel) (by decide +kernel)
  have hfailures : (FileTree.folder sampleTree_wellFormed "d/" ["d"]).failures = [] := by
    decide +kernel
  have hfine : ∀ path ∈ ["x.txt", "d/"], ∀ e, ¬ fs.Fault path e := by
    simp only [List.forall_mem_cons]
    refine ⟨?_, ?_, List.forall_mem_nil _⟩
    · rintro e (⟨h⟩ | ⟨h, -⟩) <;> cases hfile.symm.trans h
    · rintro e (⟨h⟩ | ⟨h, he⟩) <;> cases hfolder.symm.trans h
      rcases he with ⟨hway, -⟩ | ⟨hreason⟩
      · exact List.not_mem_nil hway
      · rw [hfailures] at hreason
        exact List.not_mem_nil hreason
  have hlocked : (only "d" lockedFolder).Fault "d"
      (.unreadable (.directory "Permission denied (os error 13)")) :=
    .below (if_pos rfl) (.directory (by decide))
  obtain ⟨herror, -, -⟩ := collect_of_shows hdisk.reversed ["x.txt", "gone", "d/"]
  obtain ⟨-, hok, hsame⟩ := collect_of_shows hdisk.reversed ["x.txt", "d/"]
  obtain ⟨hstop, -, -⟩ := collect_of_shows (only "d" lockedFolder).shows_toDisk ["d", "gone"]
  refine ⟨⟨hdisk.reversed, ?_, ?_, ?_⟩, (only "d" lockedFolder).shows_toDisk, ?_⟩
  · refine (herror ["x.txt"] "gone" ["d/"] rfl fun p hp => ?_).1 hgone
    exact hfine p (List.mem_cons.2 (.inl (List.mem_singleton.1 hp)))
  · obtain ⟨parts, hcollect, hparts⟩ := hok hfine
    simp only [List.forall₂_cons_left_iff, List.forall₂_nil_left_iff] at hparts
    obtain ⟨_, _, ⟨-⟩ | ⟨h, -⟩, ⟨files, _, ⟨h'⟩ | ⟨h', hlists⟩, rfl, rfl⟩, rfl⟩ := hparts
    · cases hfolder.symm.trans h'
    · cases hfolder.symm.trans h'
      rw [hcollect, hlists.unique (Folder.lists_files _ _), hsorted]
      rfl
    · cases hfile.symm.trans h
    · cases hfile.symm.trans h
  · exact hsame _ hdisk fun path hpath e _ he => absurd he (hfine path hpath e)
  · obtain ⟨e, he, -, hcollect⟩ :=
      (hstop [] "d" ["gone"] rfl (List.forall_mem_nil _)).2 ⟨_, hlocked⟩
    exact ⟨e, he, hcollect⟩

/-- A directory that is there may stop a search all the same: by a feature file whose path is not
text, or by a place that cannot be read. -/
theorem collect_stopped :
    let stray := only "d" strayFolder
    let locked := only "d" lockedFolder
    (stray.toDisk.Shows stray ∧ stray "d" ≠ none ∧
      stray.toDisk.collect ["d"] = .error (.unreadable (.name "d/bad\uFFFD.feature"))) ∧
    (locked.toDisk.Shows locked ∧ locked "d" ≠ none ∧
      locked.toDisk.collect ["d"] =
        .error (.unreadable (.directory "Permission denied (os error 13)"))) :=
  ⟨⟨FileSystem.shows_toDisk _, by simp [only], by decide +kernel⟩,
    FileSystem.shows_toDisk _, by simp [only], by decide +kernel⟩

end Disk

end FeatureDoc
