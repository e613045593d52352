import FeatureDoc.Files.Path

/-!
# Disks

A disk is what a run can see of a file system: what stands at a path, and the text of a file. What
is below a directory is seen by a walk, which comes upon entries and upon places that cannot be
read.
-/

namespace FeatureDoc

/-- The path of something below a directory, which starts with that of the directory as it was
given. -/
inductive EntryPath where
  /-- A path that is text. -/
  | text (path : String)
  /-- A path that is not text, as it is shown: with the character U+FFFD in place of bytes that
  encode none. -/
  | bytes (shown : String)
  deriving DecidableEq, Repr

/-- The path as it is shown. -/
def EntryPath.shown : EntryPath → String
  | .text path => path
  | .bytes shown => shown

/-- Something below a directory. -/
structure DiskEntry where
  /-- Its path. -/
  path : EntryPath
  /-- Whether it is a regular file. -/
  isFile : Bool
  deriving DecidableEq, Repr

/-- What a walk comes upon below a directory. -/
inductive Visit where
  /-- An entry. -/
  | entry (e : DiskEntry)
  /-- A directory that the walk is in already. -/
  | loop
  /-- A place that cannot be read. -/
  | failure (reason : String)
  deriving DecidableEq, Repr

/-- What stands at a path. -/
inductive Found where
  /-- Nothing. -/
  | missing
  /-- A file. -/
  | file
  /-- A directory, with all that a walk comes upon below it, in any order. -/
  | directory (walk : List Visit)
  deriving DecidableEq, Repr

/-- A file system. -/
structure Disk where
  /-- What stands at a path. -/
  find : String → Found
  /-- The text of the file at a path, if it can be read as text. -/
  read? : String → Option String

end FeatureDoc
