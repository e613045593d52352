import FeatureDoc.Feature.Read
import FeatureDoc.Token.Scan

/-!
# Documents

A document is the text of one feature. Reading it gives a set with that feature, or one error.

* `FeatureSet.read` reads the tokens of a document.
* A `Reader` can be asked for a document again and again: it goes on with the tokens that the last
  attempt left and collects the errors.
* `parse` reads the document that a text holds.
-/

namespace FeatureDoc

/-- Read a document: one feature and nothing after it. -/
def FeatureSet.read (ts : List Token) : Parsed FeatureSet :=
  let ts := skipTrivia ts
  let kind := (peek ts).kind
  if kind = .feature ∨ kind = .tag then
    (Feature.read ts).andThen fun feature rest =>
    let rest := skipTrivia rest
    if (peek rest).kind = .eof then .ok (⟨[feature]⟩, rest)
    else .error ⟨.afterFeature (peek rest).kind (peek rest).line, rest⟩
  else refuse .feature ts

/-- A document that is being read. -/
structure Reader where
  /-- The tokens that are left. -/
  pending : List Token
  /-- The errors so far, in order. -/
  errors : List ParseError
  deriving DecidableEq, Repr

namespace Reader

/-- Start on a text. -/
def ofString (source : String) : Reader := ⟨tokens source, []⟩

/-- Read a document from the pending tokens. There is no result once there is an error. -/
def read (r : Reader) : Option FeatureSet × Reader :=
  match FeatureSet.read r.pending with
  | .ok (set, rest) => (if r.errors.isEmpty then some set else none, { r with pending := rest })
  | .error failure => (none, ⟨failure.rest, r.errors ++ [failure.error]⟩)

/-- Read a document, and give all errors if there is no result. -/
def result (r : Reader) : Except ParseFailure FeatureSet :=
  match r.read with
  | (some set, _) => .ok set
  | (none, r) => .error ⟨r.errors⟩

end Reader

/-- The document that a text holds. -/
def parse (source : String) : Except ParseFailure FeatureSet := (Reader.ofString source).result

end FeatureDoc
