import FeatureDoc.Proofs.Filter.Narrow
import FeatureDoc.Run.Selection
import Mathlib.Data.List.Basic
import Mathlib.Tactic.SplitIfs
import Mathlib.Tactic.Tauto

/-!
# Filters in any order

Filters can be applied in any order and any number of times: what is left of a set of features
depends only on which filters were applied.

* `Feature.pick` keeps of a feature what a choice of entries leaves. Every filter is such a choice
  (`Feature.filter?_eq`), and two filters in a row are the choice of what both keep
  (`Feature.filter?_bind_filter?`).
* `FeatureSet.filter_comm` and `FeatureSet.filter_self` are order and repetition for sets;
  `FeatureSet.filterAll_of_mem` says that a filter which is applied anyway changes nothing.
* `filters_order_irrelevant` is the main statement.
-/

namespace FeatureDoc

/-! ## Features -/

namespace Feature

/-- Keep the entries that a choice leaves. A feature without entries is kept if `alone` says so, any
other one if an entry is. -/
def pick (alone : Bool) (choice : Entry → Option Entry) (f : Feature) : Option Feature :=
  let kept := f.scenarios.filterMap choice
  if (if f.scenarios.isEmpty then alone else !kept.isEmpty) then some { f with scenarios := kept }
  else none

theorem filter?_eq (φ : Filter) (f : Feature) :
    f.filter? φ = f.pick (φ.matchesFeature f) (φ.select? f) := rfl

theorem pick_of_eq_nil {f : Feature} (h : f.scenarios = []) (alone : Bool)
    (choice : Entry → Option Entry) : f.pick alone choice = if alone then some f else none := by
  obtain ⟨title, line, tags, description, background, scenarios⟩ := f
  subst h
  rfl

theorem pick_of_ne_nil {f : Feature} (h : f.scenarios ≠ []) (alone : Bool)
    (choice : Entry → Option Entry) : f.pick alone choice =
      if f.scenarios.filterMap choice = [] then none
      else some { f with scenarios := f.scenarios.filterMap choice } := by
  simp only [pick, List.isEmpty_eq_false_iff.2 h, Bool.false_eq_true, if_false]
  split_ifs <;> simp_all

theorem line_tags_of_pick {alone : Bool} {choice : Entry → Option Entry} {f f' : Feature}
    (h : f.pick alone choice = some f') : f'.line = f.line ∧ f'.tags = f.tags := by
  by_cases hnone : f.scenarios = []
  · rw [pick_of_eq_nil hnone] at h
    split at h
    · cases h
      exact ⟨rfl, rfl⟩
    · cases h
  · rw [pick_of_ne_nil hnone] at h
    split at h
    · cases h
    · cases h
      exact ⟨rfl, rfl⟩

/-- One choice after another is a single one. -/
theorem pick_bind_pick (alone alone' : Bool) (choice choice' : Entry → Option Entry) (f : Feature) :
    (f.pick alone choice).bind (pick alone' choice') =
      f.pick (alone && alone') fun e => (choice e).bind choice' := by
  by_cases hnone : f.scenarios = []
  · -- there are no entries, so the feature decides alone
    rw [pick_of_eq_nil hnone, pick_of_eq_nil hnone]
    cases alone
    · rfl
    · exact pick_of_eq_nil hnone alone' choice'
  · rw [pick_of_ne_nil hnone, pick_of_ne_nil hnone, ← List.filterMap_filterMap]
    by_cases hkept : f.scenarios.filterMap choice = []
    · simp [hkept]
    · rw [if_neg hkept, Option.bind_some]
      exact pick_of_ne_nil (f := { f with scenarios := f.scenarios.filterMap choice }) hkept _ _

/-- Two filters in a row keep what both keep. -/
theorem filter?_bind_filter? (φ ψ : Filter) (f : Feature) :
    (f.filter? φ).bind (filter? ψ) =
      f.pick (φ.matchesFeature f && ψ.matchesFeature f) fun e =>
        e.narrow ((φ.narrowing f e).meet (ψ.narrowing f e)) := by
  have hψ : (f.filter? φ).bind (filter? ψ) =
      (f.filter? φ).bind (pick (ψ.matchesFeature f) (ψ.select? f)) := by
    cases h : f.filter? φ with
    | none => rfl
    | some f' =>
      -- the second filter sees the line and the tags of the whole feature
      obtain ⟨hline, htags⟩ := line_tags_of_pick (filter?_eq φ f ▸ h)
      rw [Option.bind_some, Option.bind_some, filter?_eq]
      congr 1
      · cases ψ <;> simp only [Filter.matchesFeature, hline, htags]
      · funext e
        rw [Filter.select?_eq, Filter.select?_eq, ψ.narrowing_congr hline htags rfl rfl]
  rw [hψ, filter?_eq, pick_bind_pick]
  simp only [Filter.select?_bind_select?]

end Feature

/-! ## Sets of features -/

namespace FeatureSet

theorem filter_filter (φ ψ : Filter) (s : FeatureSet) : (s.filter φ).filter ψ =
    ⟨s.features.filterMap fun f => (f.filter? φ).bind (Feature.filter? ψ)⟩ :=
  congrArg FeatureSet.mk List.filterMap_filterMap

/-- Two filters can be swapped. -/
theorem filter_comm (φ ψ : Filter) (s : FeatureSet) :
    (s.filter φ).filter ψ = (s.filter ψ).filter φ := by
  simp only [filter_filter, Feature.filter?_bind_filter?]
  simp only [Bool.and_comm, Narrowing.meet_comm]

/-- A filter does nothing the second time. -/
theorem filter_self (φ : Filter) (s : FeatureSet) : (s.filter φ).filter φ = s.filter φ := by
  simp only [filter_filter, Feature.filter?_bind_filter?, Bool.and_self, Narrowing.meet_self]
  simp only [← Filter.select?_eq]
  rfl

/-- What a list of filters keeps, applied from left to right. -/
def filterAll (s : FeatureSet) (φs : List Filter) : FeatureSet :=
  φs.foldl (fun set φ => set.filter φ) s

theorem filterAll_cons (s : FeatureSet) (φ : Filter) (φs : List Filter) :
    s.filterAll (φ :: φs) = (s.filter φ).filterAll φs := rfl

/-- A filter can be moved over others. -/
theorem filterAll_filter (s : FeatureSet) (φ : Filter) (φs : List Filter) :
    (s.filter φ).filterAll φs = (s.filterAll φs).filter φ := by
  induction φs generalizing s with
  | nil => rfl
  | cons ψ φs ih => rw [filterAll_cons, filter_comm, ih, filterAll_cons]

/-- A filter that is applied anyway changes nothing. -/
theorem filterAll_of_mem {s : FeatureSet} {φ : Filter} {φs : List Filter} (h : φ ∈ φs) :
    (s.filterAll φs).filter φ = s.filterAll φs := by
  induction φs generalizing s with
  | nil => cases h
  | cons ψ φs ih =>
    rw [filterAll_cons]
    rcases List.mem_cons.1 h with rfl | h
    · rw [filterAll_filter, filter_self]
    · exact ih h

theorem filterAll_of_subset {s : FeatureSet} {φs ψs : List Filter} (h : ψs ⊆ φs) :
    (s.filterAll φs).filterAll ψs = s.filterAll φs := by
  induction ψs with
  | nil => rfl
  | cons ψ ψs ih =>
    obtain ⟨hψ, hψs⟩ := List.cons_subset.1 h
    rw [filterAll_cons, filterAll_of_mem hψ, ih hψs]

/-- Two lists of filters can be swapped. -/
theorem filterAll_comm (s : FeatureSet) (φs ψs : List Filter) :
    (s.filterAll φs).filterAll ψs = (s.filterAll ψs).filterAll φs := by
  induction ψs generalizing s with
  | nil => rfl
  | cons ψ ψs ih => rw [filterAll_cons, filterAll_cons, ← filterAll_filter, ih]

/-- What is left depends only on which filters are applied. -/
theorem filterAll_congr {s : FeatureSet} {φs ψs : List Filter} (h : ∀ φ, φ ∈ φs ↔ φ ∈ ψs) :
    s.filterAll φs = s.filterAll ψs := by
  calc s.filterAll φs = (s.filterAll φs).filterAll ψs :=
        (filterAll_of_subset fun φ hφ => (h φ).2 hφ).symm
    _ = (s.filterAll ψs).filterAll φs := filterAll_comm s φs ψs
    _ = s.filterAll ψs := filterAll_of_subset fun φ hφ => (h φ).1 hφ

end FeatureSet

/-- **Filters can be applied in any order and any number of times.** Two filters can be swapped, a
filter does nothing the second time, so that a list of filters keeps what the set of its members
keeps, and the filters of a run can be applied the other way round. -/
theorem filters_order_irrelevant (set : FeatureSet) :
    (∀ φ ψ : Filter, (set.filter φ).filter ψ = (set.filter ψ).filter φ) ∧
    (∀ φ : Filter, (set.filter φ).filter φ = set.filter φ) ∧
    (∀ φs ψs : List Filter, (∀ φ, φ ∈ φs ↔ φ ∈ ψs) → set.filterAll φs = set.filterAll ψs) ∧
    ∀ s : Selection, s.apply set = set.filterAll s.filters.reverse := by
  refine ⟨fun φ ψ => set.filter_comm φ ψ, fun φ => set.filter_self φ,
    fun φs ψs h => FeatureSet.filterAll_congr h, fun s => ?_⟩
  exact FeatureSet.filterAll_congr fun φ => List.mem_reverse.symm

/-- A range before and after a tag, and the tag before the range: in both ways the same row of the
outline is left, and the scenario without the tag is gone. -/
theorem filters_order_irrelevant_narrowed : ∃ set x r,
    TagExpr.parse "@t" = .ok x ∧ LineRange.parse "2-7" = .ok r ∧
    set = (⟨[⟨"f", 1, [], [], none, [.scenario ⟨"s", 2, [], []⟩,
      .outline ⟨⟨"o", 4, ["t"], []⟩, ⟨[[⟨"a", 6⟩], [⟨"1", 7⟩], [⟨"2", 8⟩]]⟩⟩]⟩]⟩ : FeatureSet) ∧
    (∀ φ, φ ∈ [Filter.lines ⟨5, 7⟩, .tags x, .lines ⟨5, 7⟩, .lines r] ↔
      φ ∈ [Filter.tags x, .lines r, .lines ⟨5, 7⟩]) ∧
    set.filterAll [.lines ⟨5, 7⟩, .tags x, .lines ⟨5, 7⟩, .lines r] =
      set.filterAll [.tags x, .lines r, .lines ⟨5, 7⟩] ∧
    set.filterAll [.tags x, .lines r, .lines ⟨5, 7⟩] = ⟨[⟨"f", 1, [], [], none,
      [.outline ⟨⟨"o", 4, ["t"], []⟩, ⟨[[⟨"a", 6⟩], [⟨"1", 7⟩]]⟩⟩]⟩]⟩ := by
  have hmem : ∀ φ, φ ∈ [Filter.lines ⟨5, 7⟩, .tags (.tag "t"), .lines ⟨5, 7⟩, .lines ⟨2, 7⟩] ↔
      φ ∈ [Filter.tags (.tag "t"), .lines ⟨2, 7⟩, .lines ⟨5, 7⟩] := by
    intro φ
    simp only [List.mem_cons, List.not_mem_nil, or_false]
    tauto
  exact ⟨_, .tag "t", ⟨2, 7⟩, by decide +kernel, by decide +kernel, rfl, hmem,
    (filters_order_irrelevant _).2.2.1 _ _ hmem, by decide +kernel⟩

end FeatureDoc
