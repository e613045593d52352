import FeatureDoc.Filter.Basic
import FeatureDoc.Proofs.Document.Lines
import FeatureDoc.Proofs.Filter.TagGrammar

/-!
# Tags of a document in tag expressions

A tag is written in the same way in a document and in an expression, so a scenario can be selected
by any tag that it or its feature has, save the empty one.

* `IsTagName` says that a name has only tag characters; the tags of a document that is read have
  (`Feature.isTagName_of_read`).
* `FeatureSet.mem_entries_filter_tags` says which entries a tag expression keeps.
* `tags_select` is the main statement.
-/

namespace FeatureDoc

/-- A name that a tag may have; it may be empty. -/
def IsTagName (name : String) : Prop := ∀ c ∈ name.toList, Text.isTagChar c = true

/-! ## The tags that are read -/

section Read

variable {ts rest : List Token}

theorem isTagName_of_readTags (hts : Stream ts) : ∀ name ∈ (readTags ts).1, IsTagName name := by
  rw [readTags_eq]
  intro name hname
  obtain ⟨t, ht, rfl⟩ := List.mem_map.1 hname
  obtain ⟨hmem, hkind⟩ := List.mem_filter.1 ht
  exact (hts.spelled t ((List.takeWhile_sublist _).subset hmem)).tag (beq_iff_eq.1 hkind)

namespace Entry

theorem isTagName_of_readOpenTags {tags : List String} (hts : Stream ts)
    (h : readOpenTags ts = .ok (tags, rest)) : ∀ name ∈ tags, IsTagName name := by
  unfold readOpenTags at h
  split at h
  · obtain ⟨t, mid, htake, heq⟩ := Parsed.andThen_eq_ok.1 h
    obtain ⟨hkind, rfl⟩ := (take_eq_ok (by decide)).1 htake
    cases heq
    exact List.forall_mem_cons.2
      ⟨(hts.spelled t List.mem_cons_self).tag hkind, isTagName_of_readTags hts.tail⟩
  · cases h
    exact List.forall_mem_nil _

theorem tags_of_readKeyworded {tags : List String} {entry : Entry}
    (h : readKeyworded tags ts = .ok (entry, rest)) : entry.tags = tags := by
  obtain ⟨t, r₁, -, hmore⟩ := Parsed.andThen_eq_ok.1 h
  split at hmore
  · obtain ⟨_, r₂, -, hround⟩ := Parsed.andThen_eq_ok.1 hmore
    obtain ⟨_, r₃, -, hround⟩ := Parsed.andThen_eq_ok.1 hround
    obtain ⟨_, r₄, -, hround⟩ := Parsed.andThen_eq_ok.1 hround
    obtain ⟨_, r₅, -, heq⟩ := Parsed.andThen_eq_ok.1 hround
    cases heq
    rfl
  · obtain ⟨_, r₂, -, hmore⟩ := Parsed.andThen_eq_ok.1 hmore
    obtain ⟨_, r₃, -, heq⟩ := Parsed.andThen_eq_ok.1 hmore
    cases heq
    rfl

/-- An entry is read on a path along its tags. -/
theorem passes_tags {entry : Entry} (h : readRound ts = .ok (entry, rest)) :
    (Path.all IsTagName).Passes ts rest entry.tags := by
  refine ⟨Parsed.suffix_of_eq_ok (reads_readRound.rest_suffix ts) h, fun hts => ?_⟩
  obtain ⟨tags, mid, htags, hround⟩ := Parsed.andThen_eq_ok.1 h
  rw [tags_of_readKeyworded hround]
  exact isTagName_of_readOpenTags hts htags

end Entry

namespace Feature

theorem tags_of_read {feature : Feature} (h : read ts = .ok (feature, rest)) :
    feature.tags = (readTags ts).1 := by
  rw [read_eq, Parsed.ok_andThen] at h
  obtain ⟨keyword, r₁, -, hfrom⟩ := Parsed.andThen_eq_ok.1 h
  obtain ⟨title, r₂, -, hmore⟩ := Parsed.andThen_eq_ok.1 hfrom
  rw [Parsed.ok_andThen] at hmore
  obtain ⟨background, r₃, -, hscenarios⟩ := Parsed.andThen_eq_ok.1 hmore
  obtain ⟨scenarios, _, -, heq⟩ := Parsed.andThen_eq_ok.1 hscenarios
  cases heq
  rfl

/-- **The tags of a feature and its entries have only tag characters.** -/
theorem isTagName_of_read {feature : Feature} (hts : Stream ts)
    (h : read ts = .ok (feature, rest)) :
    ∀ entry ∈ feature.scenarios, ∀ name ∈ feature.tags ++ entry.tags, IsTagName name := by
  obtain ⟨keyword, r₁, title, r₂, r₃, htags, -, hheading, hback, hentries⟩ := read_cases h
  have hr₁ : r₁ <:+ ts := (List.suffix_cons keyword r₁).trans (htags ▸ readTags_suffix ts)
  have hr₂ := (Parsed.suffix_of_eq_ok (rest_readHeading_suffix r₁) hheading).trans hr₁
  have hdescription := (reads_readDescription.rest_suffix r₂).trans hr₂
  have hr₃ := (Parsed.suffix_of_eq_ok (reads_readBackground?.rest_suffix _) hback).trans
    hdescription
  have hall := ((Path.all IsTagName).loop Entry.readAll_repeats Entry.passes_tags hentries).2
    (hts.of_suffix hr₃)
  intro entry hentry name hname
  rcases List.mem_append.1 hname with hname | hname
  · rw [tags_of_read h] at hname
    exact isTagName_of_readTags hts name hname
  · exact hall name (List.mem_flatMap.2 ⟨entry, hentry, hname⟩)

end Feature

end Read

/-! ## What is kept -/

theorem Feature.mem_filter?_tags {e : TagExpr} {f : Feature} {entry : Entry} :
    (∃ f' ∈ f.filter? (.tags e), entry ∈ f'.scenarios) ↔
      entry ∈ f.scenarios ∧ e.holds (f.tags ++ entry.tags) = true := by
  have hkept : entry ∈ f.scenarios.filterMap ((Filter.tags e).select? f) ↔
      entry ∈ f.scenarios ∧ e.holds (f.tags ++ entry.tags) = true := by
    rw [List.mem_filterMap]
    constructor
    · rintro ⟨entry', hmem, hselect⟩
      rw [Filter.select?] at hselect
      split at hselect
      · next hholds =>
        cases hselect
        exact ⟨hmem, hholds⟩
      · cases hselect
    · rintro ⟨hmem, hholds⟩
      exact ⟨entry, hmem, if_pos hholds⟩
  rw [← hkept, Feature.filter?]
  constructor
  · rintro ⟨f', hf', hentry⟩
    obtain ⟨-, heq⟩ := Option.ite_none_right_eq_some.1 hf'
    cases heq
    exact hentry
  · intro hentry
    have hscenarios : f.scenarios.isEmpty = false := by
      rw [List.isEmpty_eq_false_iff]
      exact List.ne_nil_of_mem (hkept.1 hentry).1
    have hnonempty : (f.scenarios.filterMap ((Filter.tags e).select? f)).isEmpty = false := by
      rw [List.isEmpty_eq_false_iff]
      exact List.ne_nil_of_mem hentry
    rw [hscenarios, hnonempty]
    exact ⟨_, rfl, hentry⟩

/-- **A tag expression keeps the entries of which it holds**, with the tags of their features. -/
theorem FeatureSet.mem_entries_filter_tags {e : TagExpr} {set : FeatureSet} {entry : Entry} :
    entry ∈ (set.filter (.tags e)).entries ↔ ∃ f ∈ set.features,
      entry ∈ f.scenarios ∧ e.holds (f.tags ++ entry.tags) = true := by
  rw [entries, List.mem_flatMap]
  constructor
  · rintro ⟨f', hf', hentry⟩
    obtain ⟨f, hf, hfilter⟩ := List.mem_filterMap.1 hf'
    exact ⟨f, hf, Feature.mem_filter?_tags.1 ⟨f', hfilter, hentry⟩⟩
  · rintro ⟨f, hf, hentry⟩
    obtain ⟨f', hfilter, hmem⟩ := Feature.mem_filter?_tags.2 hentry
    exact ⟨f', List.mem_filterMap.2 ⟨f, hf, hfilter⟩, hmem⟩

/-- The at sign alone is no expression, and with a tag behind it, it asks for that tag. -/
theorem parse_tag_iff {name : String} (h : IsTagName name) :
    ((∃ e, TagExpr.parse ("@" ++ name) = .ok e) ↔ name ≠ "") ∧
      ∀ e, TagExpr.parse ("@" ++ name) = .ok e → ∀ tags, e.holds tags = true ↔ name ∈ tags := by
  by_cases hne : name = ""
  · subst hne
    have hnone : ¬ ∃ e, TagExpr.parse ("@" ++ "") = .ok e := by
      rintro ⟨e, he⟩
      have herror : TagExpr.parse ("@" ++ "") = .error (.tagExpression 1 .missingName) := by
        decide +kernel
      rw [herror] at he
      cases he
    exact ⟨iff_of_false hnone (by simp), fun e he => absurd ⟨e, he⟩ hnone⟩
  · rw [TagExpr.parse_tag hne h]
    refine ⟨iff_of_true ⟨_, rfl⟩ hne, ?_⟩
    rintro _ ⟨⟩ tags
    exact List.contains_iff_mem

/-- **The tags of a document and those of expressions are the same.** Behind an at sign, each tag of
a text is an expression unless it is empty, and it asks for that tag. So every scenario is kept by
each tag that it or its feature has, and dropped by its negation. -/
theorem tags_select (s : String) :
    (∀ t ∈ tokens s, t.kind = .tag →
      ((∃ e, TagExpr.parse ("@" ++ t.literal) = .ok e) ↔ t.literal ≠ "") ∧
        ∀ e, TagExpr.parse ("@" ++ t.literal) = .ok e →
          ∀ tags, e.holds tags = true ↔ t.literal ∈ tags) ∧
      ∀ set, parse s = .ok set → ∀ f ∈ set.features, ∀ entry ∈ f.scenarios,
        ∀ t ∈ f.tags ++ entry.tags, t ≠ "" → ∃ keep drop,
          TagExpr.parse ("@" ++ t) = .ok keep ∧ TagExpr.parse ("~@" ++ t) = .ok drop ∧
            entry ∈ (set.filter (.tags keep)).entries ∧
            entry ∉ (set.filter (.tags drop)).entries := by
  have hts := stream_tokens s
  refine ⟨fun t ht hkind => parse_tag_iff ((hts.spelled t ht).tag hkind), ?_⟩
  intro set hparse f hf entry hentry t ht hne
  obtain ⟨feature, rest, rfl, hfeature, -⟩ := exists_read_of_parse hparse
  obtain rfl : f = feature := List.mem_singleton.1 hf
  have hname := Feature.isTagName_of_read hts hfeature entry hentry t ht
  refine ⟨.tag t, .not (.tag t), TagExpr.parse_tag hne hname, TagExpr.parse_not_tag hne hname,
    ?_, ?_⟩
  · refine FeatureSet.mem_entries_filter_tags.2 ⟨f, hf, hentry, ?_⟩
    exact List.contains_iff_mem.2 ht
  · rw [FeatureSet.mem_entries_filter_tags]
    rintro ⟨f', hf', -, hholds⟩
    obtain rfl : f' = f := List.mem_singleton.1 hf'
    rw [TagExpr.holds, Bool.not_eq_true', TagExpr.holds, ← Bool.not_eq_true] at hholds
    exact hholds (List.contains_iff_mem.2 ht)

/-- A scenario that is kept by a tag of its own and by one of its feature, next to an empty tag. -/
theorem tags_select_inherited : ∃ set own inherited entry,
    parse "@a.b @\nFeature: f\n@c+1\nScenario: s\nGiven x\n" = .ok set ∧
      TagExpr.parse "@c+1" = .ok own ∧ TagExpr.parse "@a.b" = .ok inherited ∧
      entry ∈ (set.filter (.tags own)).entries ∧
      entry ∈ (set.filter (.tags inherited)).entries := by
  let entry : Entry := .scenario ⟨"s", 4, ["c+1"], [⟨⟨.step .given, "Given", 5⟩, "x", [], none, 5⟩]⟩
  let f : Feature := ⟨"f", 2, ["a.b", ""], [], none, [entry]⟩
  have hparse : parse "@a.b @\nFeature: f\n@c+1\nScenario: s\nGiven x\n" = .ok ⟨[f]⟩ := by
    decide +kernel
  have hselect := (tags_select "@a.b @\nFeature: f\n@c+1\nScenario: s\nGiven x\n").2 _ hparse f
    List.mem_cons_self entry List.mem_cons_self
  obtain ⟨own, _, hown, -, hkeep, -⟩ := hselect "c+1" (by decide) (by decide)
  obtain ⟨inherited, _, hinherited, -, hkeep', -⟩ := hselect "a.b" (by decide) (by decide)
  exact ⟨_, own, inherited, entry, hparse, hown, hinherited, hkeep, hkeep'⟩

end FeatureDoc
