import FeatureDoc.Token.Basic

/-!
# Errors of a document

Each error has a cause and the line of the token at which it was noticed. `message` words the
cause, `display` adds the line.
-/

namespace FeatureDoc

/-- The parts of a document that need at least one step. -/
inductive StepOwner where
  | background
  | scenario
  | outline
  deriving DecidableEq, Repr

/-- The part as messages name it. -/
def StepOwner.name : StepOwner → String
  | .background => "background"
  | .scenario => "scenario"
  | .outline => "scenario outline"

/-- Why a document is refused. -/
inductive ParseError where
  /-- A token of another kind was needed. -/
  | unexpectedToken (expected found : Kind) (literal : String) (line : Nat)
  /-- A part without steps. -/
  | noSteps (owner : StepOwner) (found : Kind) (line : Nat)
  /-- Something follows the last scenario. -/
  | afterFeature (found : Kind) (line : Nat)
  /-- The text of a step looks like a placeholder. -/
  | reservedDelimiter (line : Nat)
  /-- A row of a table is not as wide as the first one. -/
  | raggedRow (actual expected line : Nat)
  deriving DecidableEq, Repr

namespace ParseError

/-- A token of kind `expected` was needed in place of `found`. -/
def unexpected (expected : Kind) (found : Token) : ParseError :=
  .unexpectedToken expected found.kind found.literal found.line

/-- The line at which the error was noticed. -/
def line : ParseError → Nat
  | .unexpectedToken _ _ _ line => line
  | .noSteps _ _ line => line
  | .afterFeature _ line => line
  | .reservedDelimiter line => line
  | .raggedRow _ _ line => line

/-- The wording of the cause. -/
def message : ParseError → String
  | .unexpectedToken expected found _ _ =>
    "expected " ++ expected.name ++ " but found " ++ found.name
  | .noSteps owner found _ =>
    owner.name ++ " has no steps: expected a step keyword but found " ++ found.name
  | .afterFeature found _ => "unexpected " ++ found.name ++ " after the end of the feature"
  | .reservedDelimiter _ => "step text may not contain '\x7b\x7b' or '\x7d\x7d'"
  | .raggedRow actual expected _ =>
    "table row has " ++ actual.repr ++ " cells but the header has " ++ expected.repr

/-- The cause with its line. -/
def display (e : ParseError) : String := "line " ++ e.line.repr ++ ": " ++ e.message

end ParseError

/-- All errors of a document that could not be read. -/
structure ParseFailure where
  /-- The errors, in the order in which they were noticed. -/
  errors : List ParseError
  deriving DecidableEq, Repr

/-- How many errors there are, and the first of them. -/
def ParseFailure.message (f : ParseFailure) : String :=
  f.errors.length.repr ++ " parse error(s), first: "
    ++ ((f.errors.head?.map ParseError.display).getD "none")

end FeatureDoc
