import FeatureDoc.Report.Chunk
import FeatureDoc.Report.Expansions
import FeatureDoc.Summary
import FeatureDoc.Text.Quoted

/-!
# The text report

The report for readers: one line for each feature, scenario, step and table row, indented by two
spaces for each level, with the expansion of each outline below it. The errors come last.
-/

namespace FeatureDoc.TextReport

/-- A line at some depth. -/
def line (depth : Nat) (text : String) : Chunk :=
  ⟨.line text, String.ofList (List.replicate (2 * depth) ' ') ++ text ++ "\n"⟩

/-- The tags of a feature or a scenario. -/
def tagLine (depth : Nat) (tags : List String) : List Chunk :=
  if tags.isEmpty then []
  else [line depth ("Tags: [" ++ String.intercalate ", " (tags.map ("@" ++ ·)) ++ "]")]

/-- A row of a table. -/
def rowText (row : Row) : String :=
  "| " ++ String.intercalate " | " (row.map Cell.literal) ++ " |"

/-- The rows of a table. -/
def table (depth : Nat) (t : Table) : List Chunk := t.rows.map fun row => line depth (rowText row)

/-- A step in one line. -/
def stepText (s : Step) : String :=
  "Step: " ++ s.keyword.literal ++ " - " ++ s.text
    ++ (if s.data.isEmpty then "" else " " ++ Text.quoteList s.data)

/-- A step with its table. -/
def step (depth : Nat) (s : Step) : List Chunk :=
  line depth (stepText s) :: (s.table.map (table (depth + 1))).getD []

/-- Steps in order. -/
def steps (depth : Nat) (ss : List Step) : List Chunk := ss.flatMap (step depth)

/-- A title with its line. -/
def titled (label title : String) (number : Nat) : String :=
  label ++ ": " ++ title ++ " (line " ++ number.repr ++ ")"

/-- The scenarios of an outline, or why there are none. -/
def expansion : Option (Except ExpandError (List Scenario)) → List Chunk
  | none => []
  | some (.ok scenarios) =>
    line 2 "Expanded:" :: scenarios.flatMap fun s =>
      line 3 (s.text ++ ":" ++ s.line.repr) :: steps 4 s.steps
  | some (.error e) => [line 2 ("Expansion failed: " ++ e.message)]

/-- What an outline has in addition to a scenario. -/
def examples (expanded : Option (Except ExpandError (List Scenario))) : Entry → List Chunk
  | .scenario _ => []
  | .outline o => line 2 "Examples:" :: table 3 o.examples ++ expansion expanded

/-- What an entry is called. -/
def label : Entry → String
  | .scenario _ => "Scenario"
  | .outline _ => "Scenario Outline"

/-- A scenario or an outline, with its expansion. -/
def entry (expanded : Option (Except ExpandError (List Scenario))) (e : Entry) : List Chunk :=
  line 1 (titled (label e) e.text e.line) :: tagLine 2 e.tags ++ steps 2 e.steps
    ++ examples expanded e

/-- The description of a feature. -/
def description (lines : List String) : List Chunk :=
  if lines.isEmpty then [] else line 1 "Description:" :: lines.map (line 2)

/-- The background of a feature. -/
def background : Option (List Step) → List Chunk
  | none => []
  | some ss => line 1 "Background:" :: steps 2 ss

/-- A feature, with the expansions at the places of its entries. -/
def feature (expanded : Nat → Option (Except ExpandError (List Scenario))) (f : Feature) :
    List Chunk :=
  line 0 (titled "Feature" f.title f.line) :: tagLine 1 f.tags ++ description f.description
    ++ background f.background ++ (f.scenarios.mapIdx fun j e => entry (expanded j) e).flatten

/-- Features with a blank line between them. -/
def features (s : FeatureSet) : List Chunk :=
  let expansions := Expansions.compute s
  [(⟨.featureGap, "\n"⟩ : Chunk)].intercalate
    (s.features.mapIdx fun i f => feature (expansions.get? i) f)

/-- An error of a file. -/
def parseError (path : String) (e : ParseError) : Chunk :=
  ⟨.errorOf path, path ++ ":" ++ e.line.repr ++ " " ++ e.message ++ "\n"⟩

/-- The errors, apart from the features. -/
def errors (s : Summary) : List Chunk :=
  if s.hasFailures then
    (if s.features.isEmpty then [] else [⟨.errorGap, "\n"⟩]) ++
      ⟨.errorHeading, "Parser Errors:\n"⟩ ::
        s.errors.map fun (path, e) => parseError path e
  else []

/-- The report of a summary. -/
def chunks (s : Summary) : List Chunk := features s.features ++ errors s

end FeatureDoc.TextReport
