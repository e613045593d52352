import FeatureDoc.Filter.Error
import FeatureDoc.Text.Bytes
import FeatureDoc.Text.Space
import FeatureDoc.Text.Word

/-!
# Tag expressions

A tag expression is a conjunction of tags, each of which may be negated any number of times.

* `TagExpr.holds` says whether an expression holds of a list of tags.
* `TagExpr.pieces` splits a text into pieces, each with its place in bytes. The last piece is the
  end of the text or the first thing that is no piece.
* `TagExpr.parse` reads an expression. A piece that is none is an error only once reading gets
  there, and then before anything else is.
-/

namespace FeatureDoc

/-- A condition on the tags of a scenario. -/
inductive TagExpr where
  /-- The tag is there. -/
  | tag (name : String)
  /-- The condition does not hold. -/
  | not (e : TagExpr)
  /-- Both conditions hold. -/
  | and (left right : TagExpr)
  deriving DecidableEq, Repr

namespace TagExpr

/-- Whether the condition holds of a list of tags. -/
def holds (tags : List String) : TagExpr → Bool
  | .tag name => tags.contains name
  | .not e => !e.holds tags
  | .and left right => left.holds tags && right.holds tags

/-! ## Pieces -/

/-- What a tag expression is made of. -/
inductive Symbol where
  /-- An at sign and a name. -/
  | tag (name : String)
  /-- Two ampersands. -/
  | and
  /-- A tilde. -/
  | not
  /-- The end of the text. -/
  | stop
  /-- None of these. -/
  | bad (reason : TagReason)
  deriving DecidableEq, Repr

/-- How messages name a piece. -/
def Symbol.name : Symbol → String
  | .tag name => "@" ++ name
  | .and => "'&&'"
  | .not => "'~'"
  | .stop => "<end>"
  | .bad reason => reason.message

/-- A symbol and its place. -/
structure Piece where
  /-- The symbol. -/
  symbol : Symbol
  /-- Where it starts, in bytes from the start of the expression. -/
  start : Nat
  deriving DecidableEq, Repr

/-- The pieces of the rest of a text, which starts `offset` bytes into it. The name of a tag is cut
out of the whole text. -/
def pieces (text : List Char) (offset : Nat) : List Char → List Piece
  | [] => [⟨.stop, offset⟩]
  | c :: cs =>
    if Text.isSpace c then pieces text (offset + c.utf8Size) cs
    else if c = '@' then
      let stop := offset + 1 + Text.byteLength (cs.takeWhile Text.isTagChar)
      match Text.slice? text (offset + 1) stop with
      | none => [⟨.bad .boundaries, offset⟩]
      | some [] => [⟨.bad .missingName, offset + 1⟩]
      | some name =>
        ⟨.tag (String.ofList name), offset⟩ :: pieces text stop (cs.dropWhile Text.isTagChar)
    else if c = '~' then ⟨.not, offset⟩ :: pieces text (offset + 1) cs
    else if c = '&' then
      if cs.head? = some '&' then ⟨.and, offset⟩ :: pieces text (offset + 2) cs.tail
      else [⟨.bad .loneAmpersand, offset⟩]
    else [⟨.bad (.unexpectedChar c), offset⟩]
termination_by cs => cs.length
decreasing_by
  · simp
  · have := (List.dropWhile_suffix (l := cs) Text.isTagChar).length_le
    simp only [List.length_cons]
    omega
  · simp
  · simp only [List.length_tail, List.length_cons]
    omega

/-! ## Reading -/

/-- Refuse a piece for a reason. -/
def refuse {α : Type} (p : Piece) (reason : TagReason) : Except FilterError α :=
  .error (.tagExpression p.start reason)

/-- Read a tag and the negations before it. -/
def parseAtom : List Piece → Except FilterError (TagExpr × List Piece)
  | [] => .error (.tagExpression 0 .expectedTag)
  | p :: rest =>
    match p.symbol with
    | .not => (parseAtom rest).map fun (e, rest) => (.not e, rest)
    | .tag name => .ok (.tag name, rest)
    | .bad reason => refuse p reason
    | .stop => refuse p .expectedTag
    | .and => refuse p (.expectedTagBut p.symbol.name)

theorem length_lt_of_parseAtom {ps rest : List Piece} {e : TagExpr}
    (h : parseAtom ps = .ok (e, rest)) : rest.length < ps.length := by
  induction ps generalizing e rest with
  | nil => cases h
  | cons p ps ih =>
    unfold parseAtom refuse at h
    split at h
    · cases ha : parseAtom ps with
      | error _ => rw [ha] at h; cases h
      | ok v =>
        obtain ⟨e', rest'⟩ := v
        rw [ha] at h
        cases h
        have := ih ha
        simp only [List.length_cons]
        omega
    · cases h
      simp
    · cases h
    · cases h
    · cases h

/-- Read the right side of an operator. -/
def parseRight (ps : List Piece) : Except FilterError (TagExpr × List Piece) :=
  match ps with
  | [] => parseAtom ps
  | p :: _ =>
    if p.symbol = .and ∨ p.symbol = .stop then refuse p .expectedTagAfterAnd else parseAtom ps

theorem length_lt_of_parseRight {ps rest : List Piece} {e : TagExpr}
    (h : parseRight ps = .ok (e, rest)) : rest.length < ps.length := by
  unfold parseRight refuse at h
  split at h
  · exact length_lt_of_parseAtom h
  · split at h
    · cases h
    · exact length_lt_of_parseAtom h

/-- Read the rest of a conjunction, up to the end of the text. -/
def parseRest (left : TagExpr) (ps : List Piece) : Except FilterError TagExpr :=
  match ps with
  | [] => .ok left
  | p :: ps =>
    match p.symbol with
    | .and =>
      match _h : parseRight ps with
      | .error e => .error e
      | .ok (right, rest) => parseRest (.and left right) rest
    | .stop => .ok left
    | .bad reason => refuse p reason
    | .tag _ | .not => refuse p (.unexpectedToken p.symbol.name)
termination_by ps.length
decreasing_by
  have := length_lt_of_parseRight _h
  simp only [List.length_cons]
  omega

/-- Read a tag expression. -/
def parse (input : String) : Except FilterError TagExpr := do
  let (left, rest) ← parseAtom (pieces input.toList 0 input.toList)
  parseRest left rest

end TagExpr

end FeatureDoc
