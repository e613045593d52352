import FeatureDoc.Text.Space

/-!
# Tokens of a feature file

A token has a kind, a literal text and the line on which it starts. The kinds are a closed list;
the five step keywords are one kind with a parameter, since the grammar treats them alike.

* `Kind.name` is the name of a kind in messages, `Kind.ofName?` its inverse.
* `Kind.ofKeyword?` recognises the words that open a part of a document.
* `StepKeyword.ofText?` reads a step keyword from a text with spaces around it.
-/

namespace FeatureDoc

/-- The words that open a step. -/
inductive StepKeyword where
  | given
  | when
  | then_
  | and
  | but
  deriving DecidableEq, Repr

namespace StepKeyword

/-- The keyword as it is written in a document. -/
def text : StepKeyword → String
  | .given => "Given"
  | .when => "When"
  | .then_ => "Then"
  | .and => "And"
  | .but => "But"

/-- The keyword as messages name it. -/
def name : StepKeyword → String
  | .given => "GIVEN"
  | .when => "WHEN"
  | .then_ => "THEN"
  | .and => "AND"
  | .but => "BUT"

/-- All step keywords. -/
def all : List StepKeyword := [.given, .when, .then_, .and, .but]

end StepKeyword

/-- The kinds of tokens. -/
inductive Kind where
  | eof
  | comment
  | colon
  | newline
  | tag
  | exampleValue
  | string
  | docString
  | tableData
  | number
  | stepBody
  | feature
  | scenario
  | outline
  | examples
  | background
  | step (keyword : StepKeyword)
  deriving DecidableEq, Repr

namespace Kind

/-- The kind as messages name it. -/
def name : Kind → String
  | .eof => "EOF"
  | .comment => "COMMENT"
  | .colon => "COLON"
  | .newline => "NEWLINE"
  | .tag => "TAG"
  | .exampleValue => "EXAMPLE_VALUE"
  | .string => "STRING"
  | .docString => "PYSTRING"
  | .tableData => "TABLEDATA"
  | .number => "NUMBER"
  | .stepBody => "STEPBODY"
  | .feature => "FEATURE"
  | .scenario => "SCENARIO"
  | .outline => "OUTLINE"
  | .examples => "EXAMPLES"
  | .background => "BACKGROUND"
  | .step k => k.name

/-- All kinds. -/
def all : List Kind :=
  [.eof, .comment, .colon, .newline, .tag, .exampleValue, .string, .docString, .tableData, .number,
   .stepBody, .feature, .scenario, .outline, .examples, .background] ++
    StepKeyword.all.map .step

/-- The kind that messages call `name`. -/
def ofName? (name : String) : Option Kind := all.find? fun k => k.name == name

/-- The kind of a keyword, which is written exactly so. -/
def ofKeyword? (word : String) : Option Kind :=
  if word = "Feature" then some .feature
  else if word = "Scenario" then some .scenario
  else if word = "Outline" then some .outline
  else if word = "Examples" then some .examples
  else if word = "Background" then some .background
  else (StepKeyword.all.find? fun k => k.text == word).map .step

/-- The step keyword of a kind, if it is one. -/
def stepKeyword? : Kind → Option StepKeyword
  | .step k => some k
  | _ => none

/-- A step starts here. -/
def isStepKeyword (k : Kind) : Bool := k.stepKeyword?.isSome

/-- A literal inside a step line, after which another literal follows without a space. -/
def isData : Kind → Bool
  | .number | .string | .exampleValue => true
  | _ => false

/-- A token that may stand between any two parts of a document. -/
def isTrivia : Kind → Bool
  | .newline | .comment => true
  | _ => false

/-- No line goes past such a token. -/
def endsLine : Kind → Bool
  | .newline | .eof => true
  | _ => false

/-- The description of a feature goes up to such a token. -/
def endsDescription : Kind → Bool
  | .background | .scenario | .tag | .eof => true
  | _ => false

theorem isTrivia_iff {k : Kind} : k.isTrivia = true ↔ k = .newline ∨ k = .comment := by
  cases k <;> simp [isTrivia]

theorem endsLine_iff {k : Kind} : k.endsLine = true ↔ k = .newline ∨ k = .eof := by
  cases k <;> simp [endsLine]

end Kind

/-- The step keyword that a text spells, spaces around it aside. -/
def StepKeyword.ofText? (s : String) : Option StepKeyword :=
  (Kind.ofKeyword? (Text.trimmed s)).bind Kind.stepKeyword?

/-- Why a text is no step keyword. -/
def StepKeyword.notOne (s : String) : String := "invalid step keyword: " ++ s

/-- A piece of a document: its kind, its text and the line on which it starts. -/
structure Token where
  /-- What sort of piece it is. -/
  kind : Kind
  /-- Its text, without the characters that only delimit it. -/
  literal : String
  /-- The line of its first character, counted from 1. -/
  line : Nat
  deriving DecidableEq, Repr

end FeatureDoc
