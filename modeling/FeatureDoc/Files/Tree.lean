import FeatureDoc.Files.Disk

/-!
# File trees

A file tree is a file system as a value: the names on the way to each file and to each directory.

* A path is looked up from the root of the tree, component by component, and everything on the way
  but the last has to be a directory (`resolve?`).
* To add a file or a directory is to walk its path, and every directory that the walk passes is
  there from then on, also where two dots lead back out of it (`passed`).
* A walk below a directory comes upon all that is there (`below`), but a directory whose path gets
  too long on the way cannot be read.
-/

namespace FeatureDoc

/-- A file system as a value. -/
structure FileTree where
  /-- The files, by the names on the way to them. -/
  files : List (List String × ByteArray)
  /-- The directories that are there even if they are empty. -/
  folders : List (List String)

namespace FileTree

/-- The tree without files. -/
def empty : FileTree := ⟨[], []⟩

/-- Where a component leads from a directory. The start of an absolute path and two dots at the
root lead out of the tree. -/
def step? (way : List String) : Path.Component → Option (List String)
  | .name text => some (way ++ [text])
  | .parent => if way.isEmpty then none else some way.dropLast
  | .current => some way
  | .root => none

/-- The directories that a walk passes, its start and its end included, as far as it stays in the
tree. -/
def passed (way : List String) : List Path.Component → List (List String)
  | [] => [way]
  | c :: rest =>
    match step? way c with
    | some next => way :: passed next rest
    | none => [way]

/-- Add a directory, and those on the way to it. -/
def addFolder (t : FileTree) (path : String) : FileTree :=
  { t with folders := t.folders ++ passed [] (Path.components path) }

/-- Add a file and the directories on the way to it, or replace the file that is there. -/
def addFile (t : FileTree) (path : String) (content : ByteArray) : FileTree :=
  let parts := Path.components path
  let added := (parts.foldlM step? []).toList.map fun way => (way, content)
  { files := t.files.filter (fun file => !added.any (·.1 == file.1)) ++ added
    folders := t.folders ++ passed [] parts.dropLast }

/-- The stations on a way: all of its front parts, from the root to the end. -/
def stations (way : List String) : List (List String) :=
  (List.range (way.length + 1)).map fun n => way.take n

/-- All directories, the root included. -/
def directories (t : FileTree) : List (List String) :=
  let parents := t.files.map fun file => file.1.dropLast
  ([] :: (parents ++ t.folders).flatMap stations).eraseDups

/-- Whether there is a directory. -/
def isDirectory (t : FileTree) (way : List String) : Bool := t.directories.contains way

/-- The content of a file. -/
def content? (t : FileTree) (way : List String) : Option ByteArray := t.files.lookup way

/-- Whether there is a directory or a file. -/
def contains (t : FileTree) (way : List String) : Bool :=
  t.isDirectory way || (t.content? way).isSome

/-- Follow the pieces of a path from a directory or a file on. A piece that is no component stays
where it is, but it has to stand behind a directory too. -/
def follow (t : FileTree) : List String → List String → Option (List String)
  | way, [] => some way
  | way, piece :: pieces =>
    if !t.isDirectory way then none
    else
      match step? way ((Path.component? piece).getD .current) with
      | some next => if t.contains next then t.follow next pieces else none
      | none => none

/-- The number of bytes in the longest path that can be looked up or read. -/
def maxPathBytes : Nat := 4095

/-- The names on the way to what a path stands for. Nothing stands at the empty path and at one
that is too long, and absolute paths lead out of the tree. -/
def resolve? (t : FileTree) (path : String) : Option (List String) :=
  if path.toList.head?.all (· == '/') || decide (maxPathBytes < path.utf8ByteSize) then none
  else t.follow [] (Path.pieces path)

/-- The path of something below a directory, spelled from a base that stands for the directory. -/
def spell (base : String) (way other : List String) : String :=
  Path.join base (String.intercalate "/" (other.drop way.length))

/-- Whether the path of a directory below another is too long for it to be read. -/
def isTooLong (base : String) (way other : List String) : Bool :=
  way != other && decide (maxPathBytes < (spell base way other).utf8ByteSize)

/-- Whether a walk below a directory comes upon something: it is below the directory, and what it is
in can be read. -/
def isReached (base : String) (way other : List String) : Bool :=
  way.isPrefixOf other && way != other && !isTooLong base way other.dropLast

/-- Why a directory with a path that is too long cannot be read. -/
def tooLongReason : String := "File name too long (os error 36)"

/-- What a walk comes upon below a directory, spelled from a base. -/
def below (t : FileTree) (base : String) (way : List String) : List Visit :=
  let folders := t.directories.filter (isReached base way)
  folders.map (fun other => .entry ⟨.text (spell base way other), false⟩) ++
    (t.files.filter fun file => isReached base way file.1).map (fun file =>
      .entry ⟨.text (spell base way file.1), true⟩) ++
    (folders.filter (isTooLong base way)).map fun _ => .failure tooLongReason

/-- The tree as a disk. -/
def toDisk (t : FileTree) : Disk where
  find path :=
    match t.resolve? path with
    | none => .missing
    | some way => if t.isDirectory way then .directory (t.below path way) else .file
  read? path := ((t.resolve? path).bind t.content?).bind String.fromUTF8?

end FileTree

end FeatureDoc
