import FeatureDoc.Feature.Basic
import FeatureDoc.Outline.Substitution

/-!
# Expanding an outline

Each data row of the examples gives one scenario: the steps of the outline with the values of the
row in place of the references to its columns. It keeps the title and the tags of the outline and
stands on the line of its row.
-/

namespace FeatureDoc

/-- A step with the values of a row. -/
def Step.substitute (s : Step) (columns : List String) (r : Record) : Except ExpandError Step := do
  let (text, data) ← r.substitute columns (segments s.text.toList) s.data
  return { s with
    text := String.ofList text
    data := data
    table := s.table.map (Table.mapLiterals r.fill) }

namespace Outline

/-- The scenario of one data row. -/
def instantiate (o : Outline) (columns : List String) (row : Row) (r : Record) :
    Except ExpandError Scenario := do
  let steps ← o.steps.mapM fun s => s.substitute columns r
  return { o.toScenario with line := row.line?.getD o.line, steps := steps }

/-- The scenarios of all data rows. -/
def expand (o : Outline) : Except ExpandError (List Scenario) := do
  let columns ← o.examples.columnNames.mapError .table
  let records ← o.examples.records.mapError .table
  (o.examples.dataRows.zip records).mapM fun (row, r) => o.instantiate columns row r

end Outline

/-- The expansion of an outline; a scenario has none. -/
def Entry.expansion? : Entry → Option (Except ExpandError (List Scenario))
  | .scenario _ => none
  | .outline o => some o.expand

end FeatureDoc
