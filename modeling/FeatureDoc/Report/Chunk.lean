/-!
# Chunks of a report

A report is written in chunks, each of which is a part of it that a message can name. A writer
with room for a limited number of bytes fails at the first chunk that does not fit.
-/

namespace FeatureDoc

/-- The parts of a report. -/
inductive ReportPart where
  /-- A line of text, without its indentation. -/
  | line (text : String)
  /-- The blank line between two features. -/
  | featureGap
  /-- The blank line between features and errors. -/
  | errorGap
  /-- The heading of the errors. -/
  | errorHeading
  /-- An error of a file. -/
  | errorOf (path : String)
  /-- A whole document. -/
  | document
  /-- The line end after a document. -/
  | terminator
  deriving DecidableEq, Repr

/-- What could not be done when a part does not fit. -/
def ReportPart.failure : ReportPart → String
  | .line text => "failed to write report line '" ++ text ++ "'"
  | .featureGap => "failed to separate features"
  | .errorGap => "failed to separate features and errors"
  | .errorHeading => "failed to write error heading"
  | .errorOf path => "failed to write parse error for " ++ path
  | .document => "failed to serialise report"
  | .terminator => "failed to terminate report"

/-- A part of a report and its text. -/
structure Chunk where
  /-- What the text is. -/
  part : ReportPart
  /-- The text, its line end included. -/
  text : String
  deriving DecidableEq, Repr

namespace Chunk

/-- The text of all chunks. -/
def concat (chunks : List Chunk) : String := String.join (chunks.map Chunk.text)

/-- The first chunk that does not fit into a number of bytes together with those before it. -/
def overflow? (capacity : Nat) : List Chunk → Option ReportPart
  | [] => none
  | c :: cs =>
    if c.text.utf8ByteSize ≤ capacity then overflow? (capacity - c.text.utf8ByteSize) cs
    else some c.part

/-- Write chunks to a place with room for a number of bytes; without a number, there is no end to
the room. -/
def write (capacity : Option Nat) (chunks : List Chunk) : Except ReportPart String :=
  match capacity.bind fun n => overflow? n chunks with
  | some part => .error part
  | none => .ok (concat chunks)

end Chunk

end FeatureDoc
