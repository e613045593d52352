/-!
# Classes of characters given by ranges

A character property is written down as a list of code point ranges, both ends included. The
ranges of a table are disjoint and ascending, but membership needs neither.
-/

namespace FeatureDoc.Text

/-- Whether the code point `n` lies in one of the ranges. -/
def inRanges (ranges : List (Nat × Nat)) (n : Nat) : Bool :=
  ranges.any fun r => decide (r.1 ≤ n) && decide (n ≤ r.2)

end FeatureDoc.Text
