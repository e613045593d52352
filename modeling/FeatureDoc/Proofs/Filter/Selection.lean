import FeatureDoc.Proofs.Filter.Expansion

/-!
# What a filter leaves of a set of features

A filter decides twice about an entry: whether it accepts the entry, and what it keeps of it. Both
decisions agree, and what is kept is the entry itself or an outline with fewer rows.

* `LineRange.Meets` says that a row starts on one of the lines of a range.
* `Filter.Leaves` lists what a filter can leave of an entry, one case for each reason;
  `Filter.select?_eq_some_iff` says that this is what it does.
* `Filter.isSome_select?` says that something is kept if and only if the entry is accepted.
* `Filter.keeps` says which features stay; `FeatureSet.features_filter` gives all of a filtered set.
* `filter_selects_subtree` is the main statement.
-/

namespace FeatureDoc

namespace LineRange

/-- A row has a first cell, and this cell is on one of the lines. -/
def Meets (r : LineRange) (row : Row) : Prop :=
  ∃ cell cells, row = cell :: cells ∧ r.first ≤ cell.line ∧ cell.line ≤ r.last

theorem containsRow_iff {r : LineRange} {row : Row} : r.containsRow row = true ↔ r.Meets row := by
  cases row with
  | nil => simp [containsRow, Row.line?, Meets]
  | cons cell cells => simp [containsRow, Row.line?, contains, Meets]

instance (r : LineRange) : DecidablePred r.Meets := fun _ => decidable_of_iff _ containsRow_iff

theorem containsRow_eq_meets (r : LineRange) : r.containsRow = fun row => decide (r.Meets row) := by
  funext row
  rw [Bool.eq_iff_iff, containsRow_iff, decide_eq_true_iff]

end LineRange

/-- A table has a data row that passes a test if there is one after the header. -/
theorem Table.filter_dataRows_ne_nil_iff {t : Table} {p : Row → Bool} :
    t.dataRows.filter p ≠ [] ↔
      ∃ header data, t.rows = header :: data ∧ ∃ row ∈ data, p row = true := by
  rw [dataRows]
  cases t.rows with
  | nil => simp
  | cons header data => simp

namespace Filter

/-! ## One entry -/

/-- `φ.Leaves f e e'`: of the entry `e` of the feature `f`, the filter `φ` leaves `e'`. -/
inductive Leaves (f : Feature) : Filter → Entry → Entry → Prop
  /-- The entry has the right tags, together with those of its feature. -/
  | tags {x : TagExpr} {e : Entry} (h : x.holds (f.tags ++ e.tags) = true) : Leaves f (.tags x) e e
  /-- The feature or the entry starts on one of the lines. -/
  | line {r : LineRange} {e : Entry} (h : r.contains f.line = true ∨ r.contains e.line = true) :
      Leaves f (.lines r) e e
  /-- Neither does, but some data rows of an outline are on the lines. These are left. -/
  | rows {r : LineRange} {o : Outline} {header : Row} {data : List Row}
      (hf : r.contains f.line = false) (ho : r.contains o.line = false)
      (hrows : o.examples.rows = header :: data) (hdata : ∃ row ∈ data, r.Meets row) :
      Leaves f (.lines r) (.outline o)
        (.outline { o with examples := ⟨header :: data.filter fun row => r.Meets row⟩ })

variable {φ : Filter} {f : Feature} {e e' : Entry}

/-- **What a filter keeps of an entry.** -/
theorem select?_eq_some_iff : φ.select? f e = some e' ↔ φ.Leaves f e e' := by
  constructor
  · intro h
    cases φ with
    | tags x =>
      simp only [select?] at h
      split at h
      · next hx =>
        cases h
        exact .tags hx
      · cases h
    | lines r =>
      by_cases hline : r.contains f.line = true ∨ r.contains e.line = true
      · rw [select?_lines_of_contains hline] at h
        cases h
        exact .line hline
      · rw [not_or, Bool.not_eq_true, Bool.not_eq_true] at hline
        cases e with
        | scenario s =>
          rw [select?_lines_of_not_contains hline.1 hline.2] at h
          cases h
        | outline o =>
          rw [select?_lines_outline hline.1 hline.2] at h
          split at h
          · cases h
          · next hne =>
            cases h
            obtain ⟨header, data, hrows, row, hrow, hmeets⟩ :=
              Table.filter_dataRows_ne_nil_iff.1 hne
            rw [Outline.retain, Table.retain, Table.dataRows, hrows, r.containsRow_eq_meets]
            exact .rows hline.1 hline.2 hrows ⟨row, hrow, LineRange.containsRow_iff.1 hmeets⟩
  · intro h
    cases h with
    | tags h => exact if_pos h
    | line h => exact select?_lines_of_contains h
    | @rows r o header data hf ho hrows hdata =>
      obtain ⟨row, hrow, hmeets⟩ := hdata
      have hne := Table.filter_dataRows_ne_nil_iff.2
        ⟨header, data, hrows, row, hrow, LineRange.containsRow_iff.2 hmeets⟩
      rw [select?_lines_outline hf ho, if_neg hne, Outline.retain, Table.retain, Table.dataRows,
        hrows, r.containsRow_eq_meets]
      rfl

/-- **The two decisions about an entry agree.** -/
theorem isSome_select? (φ : Filter) (f : Feature) (e : Entry) :
    (φ.select? f e).isSome = φ.matchesEntry f e := by
  cases φ with
  | tags x =>
    simp only [select?, matchesEntry]
    cases x.holds (f.tags ++ e.tags) <;> rfl
  | lines r =>
    by_cases hline : r.contains f.line = true ∨ r.contains e.line = true
    · rw [select?_lines_of_contains hline, Option.isSome_some]
      simp only [matchesEntry, Bool.or_eq_true_iff.2 hline, Bool.true_or]
    · rw [not_or, Bool.not_eq_true, Bool.not_eq_true] at hline
      simp only [matchesEntry, hline, Bool.or_self, Bool.false_or]
      cases e with
      | scenario s =>
        rw [select?_lines_of_not_contains hline.1 hline.2]
        rfl
      | outline o =>
        -- some row is left if and only if one is found
        rw [select?_lines_outline hline.1 hline.2, Bool.eq_iff_iff, List.any_eq_true]
        split
        · next hnil =>
          rw [List.filter_eq_nil_iff] at hnil
          simpa using hnil
        · next hne => simpa using hne

end Filter

/-! ## A set of features -/

/-- Which features a filter keeps: those with an entry that it accepts, and of those without entries
the ones that it accepts themselves. -/
def Filter.keeps (φ : Filter) (f : Feature) : Bool :=
  f.scenarios.any (φ.matchesEntry f) || f.scenarios.isEmpty && φ.matchesFeature f

/-- What a filter leaves of a feature that it keeps. -/
def Filter.prune (φ : Filter) (f : Feature) : Feature :=
  { f with scenarios := f.scenarios.filterMap (φ.select? f) }

theorem Feature.filter?_eq_ite (φ : Filter) (f : Feature) :
    f.filter? φ = if φ.keeps f then some (φ.prune f) else none := by
  have hkept : (f.scenarios.filterMap (φ.select? f)).isEmpty =
      !f.scenarios.any (φ.matchesEntry f) := by
    rw [Bool.eq_iff_iff, List.isEmpty_iff, List.filterMap_eq_nil_iff, Bool.not_eq_true',
      List.any_eq_false]
    simp only [← φ.isSome_select?, Option.not_isSome_iff_eq_none]
  have hkeeps : (if f.scenarios.isEmpty then φ.matchesFeature f
      else !(f.scenarios.filterMap (φ.select? f)).isEmpty) = φ.keeps f := by
    rw [hkept, Filter.keeps]
    cases f.scenarios with
    | nil => simp
    | cons e es => simp
  rw [filter?, Filter.prune, ← hkeeps]

/-- **All that a filter leaves** are the features that it keeps, in order, each with what is left of
its entries and otherwise as it was. -/
theorem FeatureSet.features_filter (φ : Filter) (s : FeatureSet) :
    (s.filter φ).features = (s.features.filter φ.keeps).map φ.prune := by
  have hguard : Feature.filter? φ = fun f => (Option.guard φ.keeps f).map φ.prune := by
    funext f
    rw [Feature.filter?_eq_ite, Option.guard]
    split <;> rfl
  rw [filter, hguard, ← List.map_filterMap, List.filterMap_eq_filter]

/-- Filtering two sets that are merged is merging what is left of each. -/
theorem FeatureSet.filter_merge (φ : Filter) (s t : FeatureSet) :
    (s.merge t).filter φ = (s.filter φ).merge (t.filter φ) :=
  congrArg FeatureSet.mk List.filterMap_append

/-- **Filtering selects a part of the tree and touches nothing else.** Something is kept of an entry
if and only if the filter accepts it, and that is the entry itself or, by the lines of its rows
alone, an outline with fewer rows. The features with an accepted entry, and those without entries
that are accepted themselves, stay in order, unchanged but for their entries. Merging may come
before or after. -/
theorem filter_selects_subtree (φ : Filter) :
    (∀ f e, (φ.select? f e).isSome = φ.matchesEntry f e) ∧
    (∀ f e e', φ.select? f e = some e' ↔ φ.Leaves f e e') ∧
    (∀ s : FeatureSet, (s.filter φ).features = (s.features.filter φ.keeps).map φ.prune) ∧
    ∀ s t : FeatureSet, (s.merge t).filter φ = (s.filter φ).merge (t.filter φ) :=
  ⟨φ.isSome_select?, fun _ _ _ => Filter.select?_eq_some_iff, FeatureSet.features_filter φ,
    FeatureSet.filter_merge φ⟩

end FeatureDoc
