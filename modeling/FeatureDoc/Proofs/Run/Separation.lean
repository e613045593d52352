import FeatureDoc.Proofs.Document.Attempts
import FeatureDoc.Proofs.Run.Batch

/-!
# Batches keep documents and failures apart

Texts that are added to a summary one after another leave one trace each: a document its feature,
and any other text its error, under its path. Neither kind of text has a part in the traces of the
other.

* `Summary.addAll` adds texts to a summary; `Summary.addAll_eq` says that they go behind what is
  there.
* `Thinned p xs ys` says that `ys` is `xs` without some members, all of which have a property.
* `Summary.addAll_separates` is the main statement.
-/

namespace FeatureDoc

/-! ## Leaving members out -/

/-- `ys` is `xs` without some of its members, all of which have the property `p`. -/
inductive Thinned {α : Type} (p : α → Prop) : List α → List α → Prop
  | nil : Thinned p [] []
  | keep (x : α) {xs ys : List α} : Thinned p xs ys → Thinned p (x :: xs) (x :: ys)
  | drop {x : α} {xs ys : List α} : p x → Thinned p xs ys → Thinned p (x :: xs) ys

namespace Summary

/-- Add texts one after another, each with the path of its file. -/
def addAll (s : Summary) (sources : List (String × String)) : Summary :=
  sources.foldl (fun s source => s.addSource source.1 source.2) s

/-- Texts go behind what is there. -/
theorem addAll_eq (s : Summary) (sources : List (String × String)) :
    s.addAll sources = s.append (ofSources sources) := by
  induction sources generalizing s with
  | nil => exact s.append_empty.symm
  | cons source sources ih =>
    have hstep : s.addAll (source :: sources) = (s.addSource source.1 source.2).addAll sources :=
      rfl
    rw [hstep, ih, addSource_eq, append_assoc, ← ofSources_append, List.singleton_append]

theorem empty_addAll (sources : List (String × String)) :
    empty.addAll sources = ofSources sources := by
  rw [addAll_eq, empty_append]

/-! ## The trace of one text -/

/-- Whether a text is a document. -/
def isDocument (source : String × String) : Bool := (parse source.2).isOk

variable {source : String × String} {sources : List (String × String)}

theorem isDocument_of_ok {set : FeatureSet} (h : parse source.2 = .ok set) :
    isDocument source = true := by
  rw [isDocument, h]
  rfl

theorem isDocument_of_error {failure : ParseFailure} (h : parse source.2 = .error failure) :
    isDocument source = false := by
  rw [isDocument, h]
  rfl

theorem ofSources_cons_of_ok {set : FeatureSet} (h : parse source.2 = .ok set) :
    ofSources (source :: sources) =
      ⟨set.merge (ofSources sources).features, (ofSources sources).failures⟩ := by
  simp only [ofSources, FeatureSet.merge, List.flatMap_cons, List.filterMap_cons, h]

theorem ofSources_cons_of_error {failure : ParseFailure} (h : parse source.2 = .error failure) :
    ofSources (source :: sources) = ⟨(ofSources sources).features,
      ⟨source.1, failure.errors⟩ :: (ofSources sources).failures⟩ := by
  simp only [ofSources, List.flatMap_cons, List.filterMap_cons, h, List.nil_append]

/-! ## The traces of all texts -/

/-- The feature is that of the text alone. -/
def GivesFeature (source : String × String) (feature : Feature) : Prop :=
  parse source.2 = .ok ⟨[feature]⟩

/-- The failure is the one error of the text alone, under its path. -/
def GivesFailure (source : String × String) (failure : FileFailure) : Prop :=
  ∃ e, parse source.2 = .error ⟨[e]⟩ ∧ failure = ⟨source.1, [e]⟩

theorem features_ofSources (sources : List (String × String)) :
    List.Forall₂ GivesFeature (sources.filter isDocument)
      (ofSources sources).features.features := by
  induction sources with
  | nil => exact .nil
  | cons source sources ih =>
    rcases Reader.parse_cases source.2 with ⟨feature, hparse⟩ | ⟨e, hparse⟩
    · rw [List.filter_cons_of_pos (isDocument_of_ok hparse), ofSources_cons_of_ok hparse]
      exact .cons hparse ih
    · rw [List.filter_cons_of_neg (by simp [isDocument_of_error hparse]),
        ofSources_cons_of_error hparse]
      exact ih

theorem failures_ofSources (sources : List (String × String)) :
    List.Forall₂ GivesFailure (sources.filter fun source => !isDocument source)
      (ofSources sources).failures := by
  induction sources with
  | nil => exact .nil
  | cons source sources ih =>
    rcases Reader.parse_cases source.2 with ⟨feature, hparse⟩ | ⟨e, hparse⟩
    · rw [List.filter_cons_of_neg (by simp [isDocument_of_ok hparse]), ofSources_cons_of_ok hparse]
      exact ih
    · rw [List.filter_cons_of_pos (by simp [isDocument_of_error hparse]),
        ofSources_cons_of_error hparse]
      exact .cons ⟨e, hparse, rfl⟩ ih

/-- Every text leaves one trace. -/
theorem size_ofSources (sources : List (String × String)) :
    (ofSources sources).features.size + (ofSources sources).failures.length = sources.length := by
  rw [FeatureSet.size, ← (features_ofSources sources).length_eq,
    ← (failures_ofSources sources).length_eq, ← List.length_append,
    (List.filter_append_perm isDocument sources).length_eq]

/-- Failing texts have no part in the features. -/
theorem features_of_thinned {rest : List (String × String)}
    (h : Thinned (fun source => Fails (parse source.2)) sources rest) :
    (ofSources rest).features = (ofSources sources).features := by
  induction h with
  | nil => rfl
  | keep source _ ih =>
    cases hparse : parse source.2 with
    | ok set => rw [ofSources_cons_of_ok hparse, ofSources_cons_of_ok hparse, ih]
    | error failure => rw [ofSources_cons_of_error hparse, ofSources_cons_of_error hparse, ih]
  | drop hfails _ ih =>
    obtain ⟨failure, hparse⟩ := hfails
    rw [ofSources_cons_of_error hparse, ih]

/-- Documents have no part in the failures. -/
theorem failures_of_thinned {rest : List (String × String)}
    (h : Thinned (fun source => ∃ set, parse source.2 = .ok set) sources rest) :
    (ofSources rest).failures = (ofSources sources).failures := by
  induction h with
  | nil => rfl
  | keep source _ ih =>
    cases hparse : parse source.2 with
    | ok set => rw [ofSources_cons_of_ok hparse, ofSources_cons_of_ok hparse, ih]
    | error failure => rw [ofSources_cons_of_error hparse, ofSources_cons_of_error hparse, ih]
  | drop hdocument _ ih =>
    obtain ⟨set, hparse⟩ := hdocument
    rw [ofSources_cons_of_ok hparse, ih]

/-- **A batch loses and mixes nothing.** Every text leaves one trace, the features and the failures
are those of the texts alone, in order, and neither changes when texts of the other kind are left
out. -/
theorem addAll_separates (sources : List (String × String)) :
    let s := empty.addAll sources
    s.features.size + s.failures.length = sources.length ∧
    List.Forall₂ GivesFeature (sources.filter isDocument) s.features.features ∧
    List.Forall₂ GivesFailure (sources.filter fun source => !isDocument source) s.failures ∧
    (∀ rest, Thinned (fun source => Fails (parse source.2)) sources rest →
      (empty.addAll rest).features = s.features) ∧
    ∀ rest, Thinned (fun source => ∃ set, parse source.2 = .ok set) sources rest →
      (empty.addAll rest).failures = s.failures := by
  simp only [empty_addAll]
  exact ⟨size_ofSources sources, features_ofSources sources, failures_ofSources sources,
    fun rest => features_of_thinned, fun rest => failures_of_thinned⟩

/-- Two documents with a failing text between them. -/
theorem addAll_separates_three :
    let a := ("a.feature", "Feature: A\n")
    let bad := ("bad.feature", "Feature A\n")
    let b := ("b.feature", "Feature: B\n")
    (empty.addAll [a, bad, b]).features.size + (empty.addAll [a, bad, b]).failures.length = 3 ∧
      (empty.addAll [a, b]).features = (empty.addAll [a, bad, b]).features ∧
      (empty.addAll [a, bad]).failures = (empty.addAll [a, bad, b]).failures := by
  intro a bad b
  have hbad : Fails (parse bad.2) :=
    ⟨⟨[.unexpectedToken .colon .stepBody "A" 1]⟩, by decide +kernel⟩
  have hb : ∃ set, parse b.2 = .ok set := ⟨⟨[⟨"B", 1, [], [], none, []⟩]⟩, by decide +kernel⟩
  obtain ⟨hsize, -, -, hfeatures, hfailures⟩ := addAll_separates [a, bad, b]
  exact ⟨hsize, hfeatures _ (.keep a (.drop hbad (.keep b .nil))),
    hfailures _ (.keep a (.keep bad (.drop hb .nil)))⟩

end Summary

end FeatureDoc
