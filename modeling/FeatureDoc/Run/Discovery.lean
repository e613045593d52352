import FeatureDoc.Files.Disk
import FeatureDoc.Run.Error

/-!
# Finding feature files

A file is taken as it is given. A directory stands for all feature files below it, at any depth,
in the order of their paths. The search stops at the first path that is missing, at the first place
that cannot be read, and at the first feature file whose path is not text.
-/

namespace FeatureDoc.Disk

/-- Whether an entry is a feature file. -/
def isFeatureFile (e : DiskEntry) : Bool := e.isFile && Path.hasExtension "feature" e.path.shown

/-- The feature file that a walk comes upon, if it is one. A walk that comes back to a directory
only turns away from it. -/
def featureFile? : Visit → Except RunError (Option String)
  | .loop => .ok none
  | .failure reason => .error (.unreadable (.directory reason))
  | .entry e =>
    if isFeatureFile e then
      match e.path with
      | .text path => .ok (some path)
      | .bytes shown => .error (.unreadable (.name shown))
    else .ok none

/-- The feature files that a walk comes upon, in the order of their paths. -/
def featureFiles (walk : List Visit) : Except RunError (List String) := do
  let found ← walk.mapM featureFile?
  return (found.filterMap id).mergeSort Path.le

/-- The files that a path stands for. -/
def filesAt (disk : Disk) (path : String) : Except RunError (List String) :=
  match disk.find path with
  | .missing => .error (.pathNotFound path)
  | .file => .ok [path]
  | .directory walk => featureFiles walk

/-- The files that paths stand for, in the order of the paths. -/
def collect (disk : Disk) (paths : List String) : Except RunError (List String) :=
  (paths.mapM disk.filesAt).map List.flatten

end FeatureDoc.Disk
