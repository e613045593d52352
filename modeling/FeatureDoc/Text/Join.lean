import FeatureDoc.Text.Word

/-!
# Joining pieces of prose

Tokens split prose at punctuation. Joining them back puts a space only where two words would
otherwise run into each other.
-/

namespace FeatureDoc.Text

/-- Append a piece, with a space where two words meet. -/
def joinWord (text piece : List Char) : List Char :=
  if text.getLast?.any isWordChar && piece.head?.any isWordChar then text ++ ' ' :: piece
  else text ++ piece

end FeatureDoc.Text
