import FeatureDoc.Json.Printer
import FeatureDoc.Report.Chunk
import FeatureDoc.Report.Expansions
import FeatureDoc.Summary

/-!
# The JSON report

The report for programs: the whole summary as one JSON value, with the expansion of each outline.
Members without content are left out where noted.
-/

namespace FeatureDoc.JsonReport

/-- The texts of a table. -/
def table (t : Table) : Json := .array (t.literals.map Json.strings)

/-- A step. Data and table are left out if there are none. -/
def step (s : Step) : Json :=
  .object ([("keyword", .string s.keyword.literal), ("text", .string s.text),
      ("line", .number s.line)]
    ++ Json.member? "data" (if s.data.isEmpty then none else some s.data) Json.strings
    ++ Json.member? "table" s.table table)

/-- Steps in order. -/
def steps (ss : List Step) : Json := .array (ss.map step)

/-- A scenario that an outline expands to. -/
def concrete (s : Scenario) : Json :=
  .object [("title", .string s.text), ("line", .number s.line), ("steps", steps s.steps)]

/-- The table that an outline has in addition to a scenario. -/
def examples : Entry → List (String × Json)
  | .scenario _ => []
  | .outline o => [("examples", table o.examples)]

/-- The scenarios of an outline, or why there are none. -/
def expansion : Option (Except ExpandError (List Scenario)) → List (String × Json)
  | none => []
  | some (.ok scenarios) => [("expanded", .array (scenarios.map concrete))]
  | some (.error e) => [("expansion_error", .string e.message)]

/-- What an entry is called. -/
def kind : Entry → String
  | .scenario _ => "scenario"
  | .outline _ => "outline"

/-- A scenario or an outline, with its expansion. -/
def entry (expanded : Option (Except ExpandError (List Scenario))) (e : Entry) : Json :=
  .object ([("kind", .string (kind e)), ("title", .string e.text), ("line", .number e.line),
      ("tags", Json.strings e.tags), ("steps", steps e.steps)] ++ examples e ++ expansion expanded)

/-- A feature, with the expansions at the places of its entries. Without a background, that member
is null. -/
def feature (expanded : Nat → Option (Except ExpandError (List Scenario))) (f : Feature) : Json :=
  .object [("title", .string f.title), ("line", .number f.line), ("tags", Json.strings f.tags),
    ("description", Json.strings f.description),
    ("background", (f.background.map steps).getD .null),
    ("scenarios", .array (f.scenarios.mapIdx fun j e => entry (expanded j) e))]

/-- An error of a file. -/
def parseError (path : String) (e : ParseError) : Json :=
  .object [("path", .string path), ("line", .number e.line), ("message", .string e.message)]

/-- The summary as a value. The errors are left out if there are none. -/
def value (s : Summary) : Json :=
  let expansions := Expansions.compute s.features
  .object (("features", .array (s.features.features.mapIdx fun i f =>
      feature (expansions.get? i) f)) ::
    Json.member? "errors" (if s.errors.isEmpty then none else some s.errors) fun errors =>
      .array (errors.map fun (path, e) => parseError path e))

/-- The report of a summary. -/
def chunks (s : Summary) : List Chunk := [⟨.document, (value s).pretty⟩, ⟨.terminator, "\n"⟩]

end FeatureDoc.JsonReport
