import FeatureDoc.Filter.Basic
import FeatureDoc.Run.Error

/-!
# Selections

The filters of a run: a tag expression and a line range, each of which may be missing.
-/

namespace FeatureDoc

/-- The filters of a run. -/
structure Selection where
  /-- The tag expression. -/
  tags : Option TagExpr
  /-- The line range. -/
  lines : Option LineRange
  deriving DecidableEq, Repr

namespace Selection

/-- Read the filters; the tag expression comes first. -/
def parse (tags lines : Option String) : Except FilterError Selection := do
  let tags ← tags.mapM TagExpr.parse
  let lines ← lines.mapM LineRange.parse
  return ⟨tags, lines⟩

/-- The filters in the order in which they apply. -/
def filters (s : Selection) : List Filter :=
  (s.tags.map Filter.tags).toList ++ (s.lines.map Filter.lines).toList

/-- What all filters keep. -/
def apply (s : Selection) (set : FeatureSet) : FeatureSet :=
  s.filters.foldl (fun set filter => set.filter filter) set

end Selection

end FeatureDoc
