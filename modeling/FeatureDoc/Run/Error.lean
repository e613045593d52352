import FeatureDoc.Filter.Error
import FeatureDoc.Report.Chunk
import FeatureDoc.Run.Settings

/-!
# Errors of a run

What keeps a run from writing its report. A document with errors is none of these: its errors are
part of the report.
-/

namespace FeatureDoc

/-- What cannot be read. -/
inductive ReadError where
  /-- A directory, or something in it. -/
  | directory (reason : String)
  /-- The path of a feature file, which is not text. -/
  | name (shown : String)
  /-- The text of a file. -/
  | file (path : String)
  deriving DecidableEq, Repr

/-- The wording of a reading error. -/
def ReadError.message : ReadError → String
  | .directory reason => "I/O error: " ++ reason
  | .name shown => "path is not valid UTF-8: " ++ shown
  | .file path => "failed to read " ++ path

/-- Why a run failed. -/
inductive RunError where
  /-- A setting is not among the choices. -/
  | setting (e : SettingError)
  /-- A filter is malformed. -/
  | filter (e : FilterError)
  /-- A path does not exist. -/
  | pathNotFound (path : String)
  /-- Something cannot be read. -/
  | unreadable (e : ReadError)
  /-- A part of the report cannot be written. -/
  | unwritable (part : ReportPart)
  deriving DecidableEq, Repr

/-- The wording of a run error. -/
def RunError.message : RunError → String
  | .setting e => e.message
  | .filter e => e.message
  | .pathNotFound path => "path not found: " ++ path
  | .unreadable e => e.message
  | .unwritable part => part.failure

end FeatureDoc
