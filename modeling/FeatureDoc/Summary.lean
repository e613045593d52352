import FeatureDoc.Document

/-!
# Summaries

A summary collects what a batch of files holds: the features of the files that can be read, and
the errors of those that cannot.
-/

namespace FeatureDoc

/-- The errors of one file. -/
structure FileFailure where
  /-- The file. -/
  path : String
  /-- Its errors, in order. -/
  errors : List ParseError
  deriving DecidableEq, Repr

/-- What a batch of files holds. -/
structure Summary where
  /-- The features of all files that could be read, in order. -/
  features : FeatureSet
  /-- The files that could not be read, in order. -/
  failures : List FileFailure
  deriving DecidableEq, Repr

namespace Summary

/-- No files yet. -/
def empty : Summary := ⟨.empty, []⟩

/-- Add the file at `path` with the text `source`. -/
def addSource (s : Summary) (path source : String) : Summary :=
  match parse source with
  | .ok set => { s with features := s.features.merge set }
  | .error failure => { s with failures := s.failures ++ [⟨path, failure.errors⟩] }

/-- Add a feature that was built by hand. -/
def addFeature (s : Summary) (f : Feature) : Summary := { s with features := s.features.push f }

/-- Whether some file could not be read. -/
def hasFailures (s : Summary) : Bool := !s.failures.isEmpty

/-- All errors, each with the path of its file. -/
def errors (s : Summary) : List (String × ParseError) :=
  s.failures.flatMap fun f => f.errors.map fun e => (f.path, e)

end Summary

end FeatureDoc
