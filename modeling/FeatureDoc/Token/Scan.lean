import FeatureDoc.Token.Lexeme

/-!
# Scanning a text

A cursor is a place in a text: what is left of it and the number of the current line. Reading a
token at a cursor skips the indentation, reads one lexeme and moves past it.

* `Cursor.next` is one such step; at the end of the text it gives the end token for ever.
* `Cursor.tokens` is the list of tokens up to and including the first end token, `tokens` that of
  a whole text.
* A `Scan` is a cursor that also remembers whether its tokens have been handed out to the last.
-/

namespace FeatureDoc

/-- A place in a text. -/
structure Cursor where
  /-- What is left of the text. -/
  rest : List Char
  /-- The line on which `rest` starts. -/
  line : Nat
  deriving DecidableEq, Repr

namespace Cursor

/-- The start of a text. -/
def ofString (source : String) : Cursor := ⟨source.toList, 1⟩

/-- Read a token and move past it. -/
def next (c : Cursor) : Token × Cursor :=
  let text := c.rest.dropWhile isIndent
  let lexeme := Lexeme.read text
  (⟨lexeme.kind, String.ofList lexeme.literal, c.line⟩,
    ⟨text.drop lexeme.raw.length, c.line + lexeme.raw.count '\n'⟩)

/-- A token other than the end token takes up some of the text. -/
theorem next_rest_lt {c : Cursor} (h : c.next.1.kind ≠ .eof) :
    c.next.2.rest.length < c.rest.length := by
  have hne : c.rest.dropWhile isIndent ≠ [] := by
    intro hnil
    simp [next, hnil, Lexeme.read] at h
  have hraw := List.length_pos_iff.2 (Lexeme.raw_ne_nil hne)
  have hle := (List.dropWhile_suffix (l := c.rest) isIndent).length_le
  have hpos := List.length_pos_iff.2 hne
  simp only [next, List.length_drop]
  omega

/-- The tokens from a place on, up to and including the first end token. -/
def tokens (c : Cursor) : List Token :=
  if c.next.1.kind = .eof then [c.next.1] else c.next.1 :: c.next.2.tokens
termination_by c.rest.length
decreasing_by exact next_rest_lt ‹_›

end Cursor

/-- The tokens of a text, up to and including the first end token. -/
def tokens (source : String) : List Token := (Cursor.ofString source).tokens

/-- A cursor whose tokens are handed out one by one, the end token once. -/
structure Scan where
  /-- Where the next token is read. -/
  cursor : Cursor
  /-- Whether the end token has been handed out. -/
  ended : Bool
  deriving DecidableEq, Repr

namespace Scan

/-- A scan of a whole text. -/
def ofString (source : String) : Scan := ⟨.ofString source, false⟩

/-- Read a token whether or not the scan has ended, which it does not change. -/
def read (s : Scan) : Token × Scan :=
  let (token, cursor) := s.cursor.next
  (token, { s with cursor })

/-- Hand out the next token, or nothing once the end token was handed out. -/
def next? (s : Scan) : Option Token × Scan :=
  if s.ended then (none, s)
  else
    let (token, cursor) := s.cursor.next
    (some token, ⟨cursor, token.kind == .eof⟩)

/-- All tokens that are still to be handed out. -/
def remaining (s : Scan) : List Token := if s.ended then [] else s.cursor.tokens

end Scan

end FeatureDoc
