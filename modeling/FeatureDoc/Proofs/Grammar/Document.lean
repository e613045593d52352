import FeatureDoc.Proofs.Grammar.Part
import FeatureDoc.Proofs.Step.Prose

/-!
# The grammar of a document

The parts of a document, from its lines up to the whole. Nothing here says how a document is read:
where a rule leaves a choice, every choice is a derivation.

* `line P` is a line whose tokens satisfy `P`, `lineEnd` its end, which is a line end or the end of
  the text.
* `table` has rows of one width, `step` an admissible line with an optional table and an optional
  block of text below it.
* `Derivable ts` says that the tokens `ts`, the end token included, are a document.
-/

namespace FeatureDoc.Grammar

open FeatureDoc.Part

/-- A line end or a comment, which may stand between any two parts. -/
def trivia : Part := token (·.isTrivia = true)

/-- Tags, which may stand on several lines. -/
def tags : Part := (trivia.star * kind .tag).star * trivia.star

/-- A line that satisfies `P`: all tokens up to the next line end or the end of the text. -/
def line (P : List Token → Prop) : Part := fun ts rest =>
  ∃ l, ts = l ++ rest ∧ (∀ t ∈ l, t.kind.endsLine = false) ∧ (peek rest).kind.endsLine = true ∧ P l

/-- Nothing, in front of the end of the text. -/
def atEnd : Part := fun ts rest => ts = rest ∧ (peek rest).kind = .eof

/-- The end of a line. -/
def lineEnd : Part := kind .newline + atEnd

/-- The heading of a feature, a background, a scenario or an outline, after its keyword. -/
def heading : Part := kind .colon * line (fun _ => True) * lineEnd

/-- A line of a description: it is not empty, and its first token opens no other part. -/
def IsDescription (l : List Token) : Prop :=
  ∃ t ∈ l.head?, t.kind ≠ .background ∧ t.kind ≠ .scenario ∧ t.kind ≠ .tag ∧ t.kind ≠ .comment

/-- The description of a feature. -/
def description : Part := (kind .newline + kind .comment + line IsDescription).star

/-- `n` cells. -/
def cells : Nat → Part
  | 0 => 1
  | n + 1 => kind .tableData * cells n

/-- A row of `n` cells. -/
def row (n : Nat) : Part := cells n * lineEnd

/-- One or more rows, all as wide as the first one. -/
def table : Part := fun ts rest => ∃ n, (row (n + 1)).plus ts rest

/-- A step. -/
def step : Part :=
  token (·.isStepKeyword = true) * line Admissible * lineEnd * table.opt * (kind .docString).opt

/-- One or more steps. -/
def steps : Part := trivia.star * (step * trivia.star).plus

/-- A background. -/
def background : Part := kind .background * heading * steps

/-- A scenario. -/
def scenario : Part := tags * kind .scenario * heading * steps

/-- The examples of an outline. -/
def examples : Part := kind .examples * kind .colon * kind .newline * trivia.star * table

/-- An outline. -/
def outline : Part := tags * kind .scenario * kind .outline * heading * steps * examples

/-- A feature, without what may come after it. -/
def feature : Part :=
  tags * kind .feature * heading * description * background.opt * trivia.star *
    ((scenario + outline) * trivia.star).star

/-- A document: a feature and the end token. -/
def document : Part := feature * kind .eof

/-- A list of tokens that is a document. -/
def Derivable (ts : List Token) : Prop := document ts []

end FeatureDoc.Grammar
