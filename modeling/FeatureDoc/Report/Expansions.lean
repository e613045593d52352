import FeatureDoc.Outline.Expansion

/-!
# Expansions of a report

All outlines are expanded before a report is written. The expansion of an outline is then found by
the place of its feature and by its own place among the entries of that feature.
-/

namespace FeatureDoc

/-- The expansions of the entries of a set of features. -/
structure Expansions where
  /-- For each feature, the expansion of each of its entries, which a plain scenario has not. -/
  rows : List (List (Option (Except ExpandError (List Scenario))))

namespace Expansions

/-- Expand all outlines. -/
def compute (s : FeatureSet) : Expansions :=
  ⟨s.features.map fun f => f.scenarios.map Entry.expansion?⟩

/-- The expansion at a place. -/
def get? (x : Expansions) (feature entry : Nat) : Option (Except ExpandError (List Scenario)) :=
  (x.rows[feature]?.bind fun row => row[entry]?).join

/-- At the place of an entry is the expansion of that entry. -/
theorem get?_compute {s : FeatureSet} {i j : Nat} {f : Feature} {e : Entry}
    (hf : s.features[i]? = some f) (he : f.scenarios[j]? = some e) :
    (compute s).get? i j = e.expansion? := by
  simp [get?, compute, hf, he]

end Expansions

end FeatureDoc
