import FeatureDoc.Run.CommandLine

/-!
# The program

Look up the paths that the arguments name, read the files that they stand for, and leave the rest
to `CommandLine.run`.
-/

namespace FeatureDoc

/-- All that a walk comes upon below a directory, where each path starts with that of the directory.
Links are not followed. A name that is not text cannot be looked up; what has such a name is taken
for a file. -/
partial def walkBelow (path : String) : IO (List Visit) := do
  let place := { (← IO.currentDir) with toString := path }
  match ← place.readDir.toBaseIO with
  | .error e => return [.failure (toString e)]
  | .ok children =>
    let nested ← children.toList.mapM fun child => do
      let childPath := Path.join path child.fileName
      match ← child.path.symlinkMetadata.toBaseIO with
      | .error e =>
        if child.fileName.contains '\uFFFD' then return [.entry ⟨.bytes childPath, true⟩]
        else return [.failure (toString e)]
      | .ok data =>
        match data.type with
        | .dir => return .entry ⟨.text childPath, false⟩ :: (← walkBelow childPath)
        | .file => return [.entry ⟨.text childPath, true⟩]
        | _ => return [.entry ⟨.text childPath, false⟩]
    return nested.flatten

/-- What stands at a path. The empty path stands for nothing. -/
def lookUp (path : String) : IO Found := do
  let place := { (← IO.currentDir) with toString := path }
  if path.isEmpty then return .missing
  else if ← place.isDir then return .directory (← walkBelow path)
  else if ← place.pathExists then return .file
  else return .missing

/-- The text of a file, if it can be read as text. -/
def readText? (path : String) : IO (Option String) := do
  match ← (IO.FS.readBinFile path).toBaseIO with
  | .ok content => return String.fromUTF8? content
  | .error _ => return none

/-- The part of the file system that some paths stand for. -/
def snapshot (paths : List String) : IO Disk := do
  let found ← paths.mapM fun path => return (path, ← lookUp path)
  let files := found.flatMap fun
    | (_, .missing) => []
    | (path, .file) => [path]
    | (_, .directory walk) => (Disk.featureFiles walk).toOption.getD []
  let texts ← files.mapM fun path => return (path, ← readText? path)
  return {
    find := fun path => (found.lookup path).getD .missing
    read? := fun path => (texts.lookup path).bind id }

/-- The variables of the environment that hold settings. -/
def environment : IO (String → Option String) := do
  let values ← [Settings.logLevelVariable, Settings.formatVariable].mapM fun name =>
    return (name, ← IO.getEnv name)
  return fun name => (values.lookup name).bind id

end FeatureDoc

open FeatureDoc in
/-- Run the program on its arguments. -/
def main (args : List String) : IO UInt32 := do
  let paths := match CommandLine.read {} args with
    | .run a => a.paths
    | _ => []
  let outcome := CommandLine.run args (← environment) (← snapshot paths)
  IO.print outcome.stdout
  return outcome.code.toUInt32
