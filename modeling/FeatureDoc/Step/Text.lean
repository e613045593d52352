import FeatureDoc.Step.Placeholder
import FeatureDoc.Text.Join
import FeatureDoc.Token.Consume

/-!
# The text of a step

The tokens of a step line are folded into a text and a list of data. A number or a string goes to
the data and leaves a placeholder in the text, a reference leaves a placeholder only, and the rest
is joined as prose. Prose that would spell double braces is refused, so that the placeholders of
the finished text are exactly those that were put there.

* `StepText.add` appends one token; it needs to know which token follows.
* `StepText.readLine` folds the tokens up to the end of the line.
-/

namespace FeatureDoc

/-- A step's text under construction. -/
structure StepText where
  /-- The text so far. -/
  text : List Char
  /-- The data so far. -/
  data : List String
  deriving DecidableEq, Repr

namespace StepText

/-- Nothing yet. -/
def empty : StepText := ⟨[], []⟩

/-- Append a placeholder, with a space before it, and one after it unless more data follow. -/
def putMark (s : StepText) (p : Placeholder) (next : Token) : StepText :=
  { s with text := s.text ++ ' ' :: p.chars ++ (if next.kind.isData then [] else [' ']) }

/-- Append a datum. -/
def putDatum (s : StepText) (datum : String) : StepText := { s with data := s.data ++ [datum] }

/-- Append a tag, which stands apart from the text before it. -/
def putTag (s : StepText) (name : List Char) : StepText :=
  let gap := if s.text.isEmpty || s.text.getLast? == some ' ' then [] else [' ']
  { s with text := s.text ++ gap ++ '@' :: name }

/-- Whether a piece of prose would spell double braces, alone or with the end of the text. -/
def formsDelimiter (s : StepText) (piece : List Char) : Bool :=
  hasDelimiter (s.text.getLast?.toList ++ piece)

/-- Append a token; `next` is the one that follows it. -/
def add (s : StepText) (t next : Token) : Except ParseError StepText :=
  let piece := t.literal.toList
  match t.kind with
  | .number => .ok ((s.putMark .number next).putDatum t.literal)
  | .string | .docString => .ok ((s.putMark .string next).putDatum t.literal)
  | .exampleValue =>
    if hasDelimiter piece then .error (.reservedDelimiter t.line)
    else .ok (s.putMark (.reference piece) next)
  | .comment => .ok s
  | .tag => .ok (s.putTag piece)
  | _ =>
    if s.formsDelimiter piece then .error (.reservedDelimiter t.line)
    else .ok { s with text := Text.joinWord s.text piece }

/-- Append the tokens up to the end of the line. A token that is refused is consumed. -/
def readLine (s : StepText) : List Token → Parsed StepText
  | [] => .ok (s, [])
  | t :: ts =>
    if t.kind.endsLine then .ok (s, t :: ts)
    else
      match s.add t (peek ts) with
      | .ok s => s.readLine ts
      | .error e => .error ⟨e, ts⟩

/-- Cut the spaces off the text. -/
def trim (s : StepText) : StepText := { s with text := Text.trim s.text }

/-- Append a block of text on a line of its own. -/
def putBlock (s : StepText) (block : String) : StepText :=
  { s with text := s.text ++ '\n' :: Placeholder.string.chars }.putDatum block

theorem rest_readLine_suffix (s : StepText) (ts : List Token) : (s.readLine ts).rest <:+ ts := by
  induction ts generalizing s with
  | nil => exact List.suffix_rfl
  | cons t ts ih =>
    unfold readLine
    split
    · exact List.suffix_rfl
    · split
      · exact (ih _).trans (List.suffix_cons t ts)
      · exact List.suffix_cons t ts

end StepText

end FeatureDoc
