import FeatureDoc.Text.Join
import FeatureDoc.Token.Basic

/-!
# Free text

Titles and descriptions are lines of free text. The tokens of such a line are written out again:
comments are left out, strings, references and tags get their delimiters back and a space on both
sides, a colon gets a space after it, and all else is joined as prose.
-/

namespace FeatureDoc

/-- A token as it appears in free text. -/
structure Piece where
  /-- Its characters, delimiters included. -/
  chars : List Char
  /-- Whether a space comes before it. -/
  padBefore : Bool
  /-- Whether a space comes after it. -/
  padAfter : Bool
  deriving DecidableEq, Repr

/-- The piece that a token gives; comments give none. -/
def Piece.ofToken? (t : Token) : Option Piece :=
  let body := t.literal.toList
  match t.kind with
  | .comment => none
  | .colon => some ⟨[':'], false, true⟩
  | .string => some ⟨'"' :: body ++ ['"'], true, true⟩
  | .docString => some ⟨'"' :: '"' :: '"' :: body ++ ['"', '"', '"'], true, true⟩
  | .exampleValue => some ⟨'<' :: body ++ ['>'], true, true⟩
  | .tag => some ⟨'@' :: body, true, true⟩
  | _ => some ⟨body, false, false⟩

/-- Free text under construction. -/
structure FreeText where
  /-- The text so far. -/
  text : List Char
  /-- Whether the last piece wants a space after it. -/
  spaced : Bool
  deriving DecidableEq, Repr

namespace FreeText

/-- No text yet. -/
def empty : FreeText := ⟨[], false⟩

/-- Append a piece. -/
def append (f : FreeText) (p : Piece) : FreeText :=
  if !f.text.isEmpty && (f.spaced || p.padBefore) then ⟨f.text ++ ' ' :: p.chars, p.padAfter⟩
  else ⟨Text.joinWord f.text p.chars, p.padAfter⟩

/-- The text of a line of tokens. -/
def ofLine (line : List Token) : String :=
  String.ofList (Text.trim ((line.filterMap Piece.ofToken?).foldl append empty).text)

end FreeText

end FeatureDoc
