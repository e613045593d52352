/-!
# Errors of filters

A tag expression is refused at a place, counted in bytes from its start; a line range is refused
as a whole.
-/

namespace FeatureDoc

/-- What is wrong at a place of a tag expression. `found` is the name of what stands there. -/
inductive TagReason where
  /-- A name that cannot be cut out of the expression. -/
  | boundaries
  /-- An at sign without a name. -/
  | missingName
  /-- An ampersand that stands alone. -/
  | loneAmpersand
  /-- A character that starts nothing. -/
  | unexpectedChar (c : Char)
  /-- Nothing to negate or to match. -/
  | expectedTag
  /-- Something else than a tag. -/
  | expectedTagBut (found : String)
  /-- An operator without its right side. -/
  | expectedTagAfterAnd
  /-- Something after the end of the expression. -/
  | unexpectedToken (found : String)
  deriving DecidableEq, Repr

/-- The wording of a reason. -/
def TagReason.message : TagReason → String
  | .boundaries => "invalid tag boundaries"
  | .missingName => "expected tag name after '@'"
  | .loneAmpersand => "expected '&&'"
  | .unexpectedChar c => "unexpected character '" ++ String.ofList [c] ++ "'"
  | .expectedTag => "expected tag"
  | .expectedTagBut found => "expected tag but found " ++ found
  | .expectedTagAfterAnd => "expected tag after '&&'"
  | .unexpectedToken found => "unexpected token " ++ found

/-- Why a filter is refused. -/
inductive FilterError where
  /-- A tag expression, at a place counted in bytes. -/
  | tagExpression (offset : Nat) (reason : TagReason)
  /-- A line range, as it was given. -/
  | lineRange (input : String)
  deriving DecidableEq, Repr

/-- The wording of a filter error. -/
def FilterError.message : FilterError → String
  | .tagExpression offset reason =>
    "invalid tag expression at byte " ++ offset.repr ++ ": " ++ reason.message
  | .lineRange input =>
    "invalid line range '" ++ input ++ "': expected N or N-M with N <= M"

end FeatureDoc
