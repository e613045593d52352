import FeatureDoc.Table.Basic
import FeatureDoc.Token.Basic

/-!
# Features

What a feature file describes: a feature with an optional background and scenarios, each of which
is a list of steps. An outline is a scenario with a table of examples, one concrete scenario for
each data row.
-/

namespace FeatureDoc

/-- A step. The numbers and strings of its line stand in `data`, in order, and a placeholder
stands for each of them in `text`. -/
structure Step where
  /-- The token that opens the step. -/
  keyword : Token
  /-- The rest of its line, with placeholders. -/
  text : String
  /-- The numbers and strings that were taken out of the text. -/
  data : List String
  /-- The table below the line. -/
  table : Option Table
  /-- The line of the keyword. -/
  line : Nat
  deriving DecidableEq, Repr

/-- The keyword of the step, if its token is one. -/
def Step.keywordKind? (s : Step) : Option StepKeyword := s.keyword.kind.stepKeyword?

/-- A scenario, ready to run. -/
structure Scenario where
  /-- Its title. -/
  text : String
  /-- The line on which it starts. -/
  line : Nat
  /-- Its tags, without the at sign. -/
  tags : List String
  /-- Its steps. -/
  steps : List Step
  deriving DecidableEq, Repr

/-- A scenario whose steps refer to the columns of a table. -/
structure Outline extends Scenario where
  /-- The table of values. -/
  examples : Table
  deriving DecidableEq, Repr

/-- What a feature consists of. -/
inductive Entry where
  | scenario (s : Scenario)
  | outline (o : Outline)
  deriving DecidableEq, Repr

namespace Entry

/-- The scenario itself, or that of the outline. -/
def base : Entry → Scenario
  | .scenario s => s
  | .outline o => o.toScenario

/-- The table of an outline. -/
def examples? : Entry → Option Table
  | .scenario _ => none
  | .outline o => some o.examples

/-- The title. -/
def text (e : Entry) : String := e.base.text

/-- The line on which it starts. -/
def line (e : Entry) : Nat := e.base.line

/-- Its own tags. -/
def tags (e : Entry) : List String := e.base.tags

/-- Its steps. -/
def steps (e : Entry) : List Step := e.base.steps

end Entry

/-- A feature. -/
structure Feature where
  /-- Its title. -/
  title : String
  /-- The line on which it starts. -/
  line : Nat
  /-- Its tags, which its scenarios share. -/
  tags : List String
  /-- The lines of its description that are not empty. -/
  description : List String
  /-- The steps that come before each scenario. -/
  background : Option (List Step)
  /-- Its scenarios and outlines. -/
  scenarios : List Entry
  deriving DecidableEq, Repr

/-- A list of features, in the order in which they were added. -/
structure FeatureSet where
  /-- The features. -/
  features : List Feature
  deriving DecidableEq, Repr

namespace FeatureSet

/-- No features. -/
def empty : FeatureSet := ⟨[]⟩

/-- Add a feature. -/
def push (s : FeatureSet) (f : Feature) : FeatureSet := ⟨s.features ++ [f]⟩

/-- Add all features of another set. -/
def merge (s t : FeatureSet) : FeatureSet := ⟨s.features ++ t.features⟩

/-- The number of features. -/
def size (s : FeatureSet) : Nat := s.features.length

/-- Whether there are no features. -/
def isEmpty (s : FeatureSet) : Bool := s.features.isEmpty

/-- The scenarios and outlines of all features. -/
def entries (s : FeatureSet) : List Entry := s.features.flatMap Feature.scenarios

end FeatureSet

end FeatureDoc
