import FeatureDoc.Feature.Basic
import FeatureDoc.Filter.LineRange
import FeatureDoc.Filter.TagExpr

/-!
# Filters

A filter selects scenarios, by their tags or by the lines on which they stand.

* `Filter.matchesFeature` and `Filter.matchesEntry` decide about features and their entries.
* `Filter.select?` is what a filter keeps of an entry. Of an outline whose examples alone are in
  the range of lines, it keeps the header and the rows in the range.
* `FeatureSet.filter` keeps the features of which something is left.
-/

namespace FeatureDoc

/-- A filter. -/
inductive Filter where
  /-- Keep what has the right tags. -/
  | tags (e : TagExpr)
  /-- Keep what stands on the right lines. -/
  | lines (r : LineRange)
  deriving DecidableEq, Repr

namespace Filter

/-- Whether the filter accepts a feature by itself. -/
def matchesFeature : Filter → Feature → Bool
  | .tags e, f => e.holds f.tags
  | .lines r, f => r.contains f.line

/-- Whether the filter accepts an entry of a feature, at least in part. A scenario has the tags of
its feature, too. -/
def matchesEntry : Filter → Feature → Entry → Bool
  | .tags e, f, entry => e.holds (f.tags ++ entry.tags)
  | .lines r, f, entry =>
    r.contains f.line || r.contains entry.line ||
      match entry with
      | .scenario _ => false
      | .outline o => o.examples.dataRows.any r.containsRow

/-- The part of an outline whose examples are on the lines of a range. -/
def selectRows? (r : LineRange) (o : Outline) : Option Outline :=
  let examples := o.examples.retain r.containsRow
  if examples.size < 2 then none else some { o with examples := examples }

/-- What the filter keeps of an entry of a feature. -/
def select? : Filter → Feature → Entry → Option Entry
  | .tags e, f, entry => if e.holds (f.tags ++ entry.tags) then some entry else none
  | .lines r, f, entry =>
    if r.contains f.line || r.contains entry.line then some entry
    else
      match entry with
      | .scenario _ => none
      | .outline o => (selectRows? r o).map .outline

end Filter

/-- What a filter keeps of a feature. A feature without scenarios stands for itself. -/
def Feature.filter? (filter : Filter) (f : Feature) : Option Feature :=
  let kept := f.scenarios.filterMap (filter.select? f)
  let keep := if f.scenarios.isEmpty then filter.matchesFeature f else !kept.isEmpty
  if keep then some { f with scenarios := kept } else none

/-- What a filter keeps of a set of features. -/
def FeatureSet.filter (filter : Filter) (s : FeatureSet) : FeatureSet :=
  ⟨s.features.filterMap (Feature.filter? filter)⟩

end FeatureDoc
