import FeatureDoc.Report.Json
import FeatureDoc.Report.Text
import FeatureDoc.Run.Discovery
import FeatureDoc.Run.Selection

/-!
# A run

A run finds files, reads them into a summary, filters its features and writes a report.
-/

namespace FeatureDoc

/-- The report of a summary, in chunks. -/
def Format.chunks : Format → Summary → List Chunk
  | .text, s => TextReport.chunks s
  | .json, s => JsonReport.chunks s

namespace Summary

/-- Write the report to a place with limited room. -/
def report (s : Summary) (format : Format) (capacity : Option Nat) : Except RunError String :=
  (Chunk.write capacity (format.chunks s)).mapError .unwritable

/-- Keep what a selection keeps. -/
def select (s : Summary) (selection : Selection) : Summary :=
  { s with features := selection.apply s.features }

/-- Read files into a summary. -/
def readFiles (disk : Disk) (paths : List String) : Except RunError Summary :=
  paths.foldlM (fun s path =>
    match disk.read? path with
    | some source => .ok (s.addSource path source)
    | none => .error (.unreadable (.file path))) empty

end Summary

/-- What to run on. -/
structure Request where
  /-- Files and directories. -/
  paths : List String
  /-- A tag expression. -/
  tags : Option String
  /-- A line range. -/
  lines : Option String
  deriving DecidableEq, Repr

/-- Run a request: the filtered summary and its report. -/
def Request.execute (r : Request) (format : Format) (disk : Disk) :
    Except RunError (Summary × String) := do
  let selection ← (Selection.parse r.tags r.lines).mapError .filter
  let files ← disk.collect r.paths
  let summary ← Summary.readFiles disk files
  let summary := summary.select selection
  let report ← summary.report format none
  return (summary, report)

end FeatureDoc
