import FeatureDoc.Files.Tree
import FeatureDoc.Proofs.Files.Path

/-!
# File systems and the disks that show them

A file system says what stands at a path, and of a directory which entries and which places that
cannot be read are below it. A disk that shows a file system may come upon these in any order.

* `Folder` is what is below a directory, `Disk.Shows` says that a disk shows a file system.
* `FileTree.shows_toDisk` is the main statement: the disk of a file tree shows the folders of the
  tree, as far as paths can be read, provided that its entries are apart and their names are names.
-/

namespace FeatureDoc

/-! ## File systems -/

/-- What is below a directory, at any depth. -/
structure Folder where
  /-- The names on the way to each entry whose names are all text, and whether the entry is a regular
  file. -/
  entries : List (List String × Bool)
  /-- The same for each entry with a name that is not text, where names are as they are shown. -/
  strays : List (List String × Bool)
  /-- Why places cannot be read. -/
  failures : List String
  /-- A way of text leads to one entry. -/
  nodup : (entries.map Prod.fst).Nodup
  /-- The directory itself is no entry. -/
  ne_nil : ∀ entry ∈ entries ++ strays, entry.1 ≠ []
  /-- Ways are made of names. -/
  isName : ∀ entry ∈ entries ++ strays, ∀ name ∈ entry.1, Path.IsName name

/-- All that there is to come upon, where each path is below the directory as it was given. -/
def Folder.listing (f : Folder) (base : String) : List Visit :=
  (f.entries.map fun entry => .entry ⟨.text (Path.spell base entry.1), entry.2⟩) ++
    (f.strays.map fun entry => .entry ⟨.bytes (Path.spell base entry.1), entry.2⟩) ++
    f.failures.map .failure

/-- What stands at a path. -/
inductive Node where
  /-- Anything but a directory. -/
  | file
  /-- A directory. -/
  | folder (f : Folder)

/-- What stands at each path, if there is anything. -/
abbrev FileSystem := String → Option Node

/-- A disk shows a file system, where a walk comes upon everything below a directory once, in any
order. -/
def Disk.Shows (disk : Disk) (fs : FileSystem) : Prop :=
  ∀ path, match fs path with
    | none => disk.find path = .missing
    | some .file => disk.find path = .file
    | some (.folder f) => ∃ walk, disk.find path = .directory walk ∧ walk.Perm (f.listing path)

/-- The disk of a file system on which no file can be read. Walks go through each list in order. -/
def FileSystem.toDisk (fs : FileSystem) : Disk where
  find path :=
    match fs path with
    | none => .missing
    | some .file => .file
    | some (.folder f) => .directory (f.listing path)
  read? _ := none

theorem FileSystem.shows_toDisk (fs : FileSystem) : fs.toDisk.Shows fs := by
  intro path
  rcases h : fs path with _ | _ | f <;> simp [toDisk, h]

/-! ## File trees -/

namespace FileTree

variable {t : FileTree}

/-- All entries of a tree. -/
def ways (t : FileTree) : List (List String × Bool) :=
  t.directories.map (·, false) ++ t.files.map fun file => (file.1, true)

/-- The entries of a tree are apart, and their names are names. -/
structure WellFormed (t : FileTree) : Prop where
  /-- A way leads to one entry. -/
  nodup : (t.ways.map Prod.fst).Nodup
  /-- Ways are made of names. -/
  isName : ∀ entry ∈ t.ways, ∀ name ∈ entry.1, Path.IsName name

theorem exists_of_isReached {base : String} {way other : List String}
    (h : isReached base way other = true) : ∃ rest, rest ≠ [] ∧ other = way ++ rest := by
  rw [isReached, Bool.and_eq_true, Bool.and_eq_true, List.isPrefixOf_iff_prefix, bne_iff_ne] at h
  obtain ⟨⟨⟨rest, rfl⟩, hne⟩, -⟩ := h
  exact ⟨rest, by rintro rfl; simp at hne, rfl⟩

/-- What is below a directory of a tree, as far as it can be reached with paths from a base. -/
def folder (h : t.WellFormed) (base : String) (way : List String) : Folder where
  entries := (t.ways.filter fun entry => isReached base way entry.1).map fun entry =>
    (entry.1.drop way.length, entry.2)
  strays := []
  failures := ((t.directories.filter (isReached base way)).filter (isTooLong base way)).map fun _ =>
    tooLongReason
  nodup := by
    have hsub : ((t.ways.filter fun entry => isReached base way entry.1).map Prod.fst).Nodup :=
      h.nodup.sublist (List.filter_sublist.map _)
    have hdrop := hsub.map_on (f := List.drop way.length) fun other hother other' hother' heq => by
      obtain ⟨entry, hentry, rfl⟩ := List.mem_map.1 hother
      obtain ⟨entry', hentry', rfl⟩ := List.mem_map.1 hother'
      obtain ⟨rest, -, hrest⟩ := exists_of_isReached (List.mem_filter.1 hentry).2
      obtain ⟨rest', -, hrest'⟩ := exists_of_isReached (List.mem_filter.1 hentry').2
      rw [hrest, hrest', List.drop_left, List.drop_left] at heq
      rw [hrest, hrest', heq]
    rw [List.map_map] at hdrop ⊢
    exact hdrop
  ne_nil := by
    rw [List.append_nil]
    intro entry hentry
    obtain ⟨other, hother, rfl⟩ := List.mem_map.1 hentry
    obtain ⟨rest, hne, hrest⟩ := exists_of_isReached (List.mem_filter.1 hother).2
    rw [hrest, List.drop_left]
    exact hne
  isName := by
    rw [List.append_nil]
    intro entry hentry name hname
    obtain ⟨other, hother, rfl⟩ := List.mem_map.1 hentry
    exact h.isName other (List.mem_filter.1 hother).1 name (List.mem_of_mem_drop hname)

/-- What stands at a path of a tree. -/
def view (h : t.WellFormed) : FileSystem := fun path =>
  (t.resolve? path).map fun way =>
    if t.isDirectory way then .folder (folder h path way) else .file

theorem below_eq (h : t.WellFormed) (base : String) (way : List String) :
    t.below base way = (folder h base way).listing base := by
  simp only [below, folder, Folder.listing, ways, List.filter_append, List.map_append,
    List.filter_map, List.map_map, List.map_nil, List.append_nil]
  rfl

/-- **The disk of a tree shows the tree.** -/
theorem shows_toDisk (h : t.WellFormed) : t.toDisk.Shows (view h) := by
  intro path
  cases hway : t.resolve? path with
  | none => simp [view, toDisk, hway]
  | some way =>
    by_cases hfolder : t.isDirectory way = true
    · simp [view, toDisk, hway, hfolder, below_eq h]
    · simp [view, toDisk, hway, hfolder]

end FileTree

end FeatureDoc
