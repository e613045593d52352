import FeatureDoc.Report.Text
import Mathlib.Data.String.Basic

/-!
# What the text report says

The report for readers is a tree of lines: below a feature stand its parts, below a step the rows of
its table, and below an outline its examples and the scenarios that it expands to. Each level is
indented by two spaces more than the one above.

* `Indented` is a line with what is below it, `Indented.text` its text.
* `Indented.ofFeature` is what is reported of a feature, and `Summary.plainText` of a summary, both
  said without chunks, depths and the places of expansions.
* `TextReport.concat_chunks` is the main statement: this is what the report is.
-/

namespace FeatureDoc

/-! ## Trees of lines -/

/-- A line and what is indented below it. -/
structure Indented where
  /-- The line. -/
  line : String
  /-- What is below it, in order. -/
  lines : List Indented

namespace Indented

mutual

/-- The text of a line at some depth and of what is below it. -/
def text (depth : ℕ) : Indented → String
  | ⟨line, lines⟩ =>
    String.join (List.replicate depth "  ") ++ line ++ "\n" ++ textAll (depth + 1) lines

/-- The text of some lines at the same depth and of what is below each of them. -/
def textAll (depth : ℕ) : List Indented → String
  | [] => ""
  | x :: xs => text depth x ++ textAll depth xs

end

/-- A line with nothing below it. -/
def leaf (line : String) : Indented := ⟨line, []⟩

/-! ## What is reported -/

/-- A row of a table. -/
def ofRow (row : Row) : Indented :=
  leaf ("| " ++ String.intercalate " | " (row.map Cell.literal) ++ " |")

/-- A step, with the rows of its table below it. Its data are quoted, if there are any. -/
def ofStep (s : Step) : Indented where
  line := "Step: " ++ s.keyword.literal ++ " - " ++ s.text ++
    if s.data = [] then "" else " " ++ Text.quoteList s.data
  lines := match s.table with
    | none => []
    | some t => t.rows.map ofRow

/-- The tags of a feature or an entry, if there are any. -/
def ofTags (tags : List String) : List Indented :=
  if tags = [] then []
  else [leaf ("Tags: [" ++ String.intercalate ", " (tags.map ("@" ++ ·)) ++ "]")]

/-- A name with a title and the line where it stands. -/
def heading (name title : String) (line : ℕ) : String :=
  name ++ ": " ++ title ++ " (line " ++ line.repr ++ ")"

/-- The scenarios of an outline, each with its steps below it, or why there are none. -/
def ofExpansion : Except ExpandError (List Scenario) → Indented
  | .ok scenarios =>
    ⟨"Expanded:", scenarios.map fun s => ⟨s.text ++ ":" ++ s.line.repr, s.steps.map ofStep⟩⟩
  | .error e => leaf ("Expansion failed: " ++ e.message)

/-- A scenario, or an outline with its examples and its own expansion. -/
def ofEntry : Entry → Indented
  | .scenario s => ⟨heading "Scenario" s.text s.line, ofTags s.tags ++ s.steps.map ofStep⟩
  | .outline o =>
    ⟨heading "Scenario Outline" o.text o.line, ofTags o.tags ++ o.steps.map ofStep ++
      [⟨"Examples:", o.examples.rows.map ofRow⟩, ofExpansion o.expand]⟩

/-- A feature: its tags, its description and its background, if there are any, and its entries. -/
def ofFeature (f : Feature) : Indented where
  line := heading "Feature" f.title f.line
  lines := ofTags f.tags ++
    (if f.description = [] then [] else [⟨"Description:", f.description.map leaf⟩]) ++
    (match f.background with
      | none => []
      | some steps => [⟨"Background:", steps.map ofStep⟩]) ++
    f.scenarios.map ofEntry

end Indented

/-- The text of a summary: its features with a blank line between them, and after another one all
errors, file by file. -/
def Summary.plainText (s : Summary) : String :=
  let errors := s.failures.flatMap fun file => file.errors.map fun e =>
    file.path ++ ":" ++ e.line.repr ++ " " ++ e.message ++ "\n"
  String.intercalate "\n" (s.features.features.map fun f => (Indented.ofFeature f).text 0) ++
    if s.failures = [] then ""
    else (if s.features.features = [] then "" else "\n") ++ "Parser Errors:\n" ++ String.join errors

/-! ## Chunks -/

/-- Each member contributes something that depends on its place only in appearance. -/
theorem map_mapIdx_eq_map {α β γ : Type} {f : ℕ → α → β} {k : β → γ} {g : α → γ} {l : List α}
    (h : ∀ i x, l[i]? = some x → k (f i x) = g x) : (l.mapIdx f).map k = l.map g := by
  refine List.ext_getElem? fun i => ?_
  rw [List.getElem?_map, List.getElem?_mapIdx, List.getElem?_map, Option.map_map]
  exact Option.map_congr fun x hx => h i x hx

namespace Chunk

@[simp]
theorem concat_nil : concat [] = "" := rfl

@[simp]
theorem concat_cons (c : Chunk) (cs : List Chunk) : concat (c :: cs) = c.text ++ concat cs :=
  String.join_cons

@[simp]
theorem concat_append (cs ds : List Chunk) : concat (cs ++ ds) = concat cs ++ concat ds := by
  rw [concat, List.map_append, String.join_append]
  rfl

theorem concat_flatten (parts : List (List Chunk)) :
    concat parts.flatten = String.join (parts.map concat) := by
  induction parts with
  | nil => rfl
  | cons part parts ih =>
    rw [List.flatten_cons, concat_append, ih, List.map_cons, String.join_cons]

theorem concat_intercalate (c : Chunk) (parts : List (List Chunk)) :
    concat ([c].intercalate parts) = String.intercalate c.text (parts.map concat) := by
  induction parts with
  | nil => simp
  | cons part parts ih =>
    cases parts with
    | nil => simp
    | cons part' parts =>
      rw [List.intercalate_cons_cons, concat_append, ih]
      simp

end Chunk

/-! ## The text of chunks is that of a tree -/

namespace Indented

variable {α : Type}

theorem textAll_append (depth : ℕ) (xs ys : List Indented) :
    textAll depth (xs ++ ys) = textAll depth xs ++ textAll depth ys := by
  induction xs with
  | nil => simp [textAll]
  | cons x xs ih => rw [List.cons_append, textAll, ih, textAll, String.append_assoc]

theorem textAll_singleton (depth : ℕ) (x : Indented) : textAll depth [x] = x.text depth := by
  simp [textAll]

theorem indentation_eq (depth : ℕ) :
    String.ofList (List.replicate (2 * depth) ' ') = String.join (List.replicate depth "  ") := by
  induction depth with
  | zero => rfl
  | succ depth ih =>
    rw [List.replicate_succ, String.join_cons, ← ih, Nat.mul_succ, Nat.add_comm, List.replicate_add,
      String.ofList_append]
    rfl

/-- A line and chunks are a tree if the chunks are what is below the line. -/
theorem concat_line {depth : ℕ} {chunks : List Chunk} {lines : List Indented}
    (h : Chunk.concat chunks = textAll (depth + 1) lines) (line : String) :
    Chunk.concat (TextReport.line depth line :: chunks) = text depth ⟨line, lines⟩ := by
  rw [Chunk.concat_cons, h, text, TextReport.line, indentation_eq]

theorem concat_leaf (depth : ℕ) (line : String) :
    Chunk.concat [TextReport.line depth line] = (leaf line).text depth :=
  concat_line (by simp [textAll]) line

theorem textAll_map (depth : ℕ) (tree : α → Indented) (l : List α) :
    textAll depth (l.map tree) = String.join (l.map fun x => (tree x).text depth) := by
  induction l with
  | nil => simp [textAll]
  | cons x l ih => rw [List.map_cons, textAll, ih, List.map_cons, String.join_cons]

/-- The chunks of some parts are the trees of the parts, one after another. -/
theorem concat_flatMap {depth : ℕ} {l : List α} {chunks : α → List Chunk} {tree : α → Indented}
    (h : ∀ x ∈ l, Chunk.concat (chunks x) = (tree x).text depth) :
    Chunk.concat (l.flatMap chunks) = textAll depth (l.map tree) := by
  rw [List.flatMap_def, Chunk.concat_flatten, List.map_map, textAll_map]
  exact congrArg _ (List.map_congr_left h)

theorem concat_leaves (depth : ℕ) (l : List α) (line : α → String) :
    Chunk.concat (l.map fun x => TextReport.line depth (line x)) =
      textAll depth (l.map fun x => leaf (line x)) := by
  rw [List.map_eq_flatMap]
  exact concat_flatMap fun x _ => concat_leaf depth (line x)

end Indented

namespace TextReport

open Indented

theorem concat_table (depth : ℕ) (t : Table) :
    Chunk.concat (table depth t) = textAll depth (t.rows.map ofRow) :=
  concat_leaves depth t.rows rowText

theorem concat_step (depth : ℕ) (s : Step) :
    Chunk.concat (step depth s) = (ofStep s).text depth := by
  have htext : stepText s = "Step: " ++ s.keyword.literal ++ " - " ++ s.text ++
      if s.data = [] then "" else " " ++ Text.quoteList s.data := by
    simp only [stepText, List.isEmpty_iff]
  rw [step, ofStep, ← htext]
  refine concat_line ?_ _
  cases s.table with
  | none => rfl
  | some t => exact concat_table (depth + 1) t

theorem concat_steps (depth : ℕ) (ss : List Step) :
    Chunk.concat (steps depth ss) = textAll depth (ss.map ofStep) :=
  concat_flatMap fun s _ => concat_step depth s

theorem concat_tagLine (depth : ℕ) (tags : List String) :
    Chunk.concat (tagLine depth tags) = textAll depth (ofTags tags) := by
  by_cases htags : tags = []
  · subst htags
    rfl
  · simp only [tagLine, ofTags, List.isEmpty_iff, htags, if_false, concat_leaf, textAll_singleton]

theorem concat_expansion (x : Except ExpandError (List Scenario)) :
    Chunk.concat (expansion (some x)) = (ofExpansion x).text 2 := by
  cases x with
  | error e => exact concat_leaf 2 _
  | ok scenarios =>
    exact concat_line (concat_flatMap fun s _ => concat_line (concat_steps 4 s.steps) _) _

/-- An entry that is reported with its own expansion. -/
theorem concat_entry (e : Entry) : Chunk.concat (entry e.expansion? e) = (ofEntry e).text 1 := by
  rw [entry, List.cons_append, List.cons_append]
  cases e with
  | scenario s =>
    refine concat_line ?_ _
    rw [Chunk.concat_append, Chunk.concat_append, concat_tagLine, concat_steps, textAll_append]
    exact String.append_empty
  | outline o =>
    refine concat_line ?_ _
    have hexamples : Chunk.concat (line 2 "Examples:" :: table 3 o.examples) =
        text 2 ⟨"Examples:", o.examples.rows.map ofRow⟩ :=
      concat_line (concat_table 3 o.examples) _
    have hlast : Chunk.concat (examples (some o.expand) (.outline o)) =
        textAll 2 [⟨"Examples:", o.examples.rows.map ofRow⟩, ofExpansion o.expand] := by
      rw [examples, Chunk.concat_append, hexamples, concat_expansion, textAll, textAll_singleton]
    rw [Chunk.concat_append, Chunk.concat_append, concat_tagLine, concat_steps, textAll_append,
      textAll_append]
    exact congrArg _ hlast

theorem concat_description (texts : List String) : Chunk.concat (description texts) =
    textAll 1 (if texts = [] then [] else [⟨"Description:", texts.map leaf⟩]) := by
  by_cases htexts : texts = []
  · subst htexts
    rfl
  · simp only [description, List.isEmpty_iff, htexts, if_false, textAll_singleton]
    exact concat_line (concat_leaves 2 texts id) _

theorem concat_background (steps? : Option (List Step)) : Chunk.concat (background steps?) =
    textAll 1 (match steps? with
      | none => []
      | some steps => [⟨"Background:", steps.map ofStep⟩]) := by
  cases steps? with
  | none => rfl
  | some ss =>
    rw [textAll_singleton]
    exact concat_line (concat_steps 2 ss) _

/-- A feature that is reported with the expansions of its own entries. -/
theorem concat_feature {f : Feature} {expanded : ℕ → Option (Except ExpandError (List Scenario))}
    (h : ∀ j e, f.scenarios[j]? = some e → expanded j = e.expansion?) :
    Chunk.concat (feature expanded f) = (ofFeature f).text 0 := by
  have hentries : Chunk.concat (f.scenarios.mapIdx fun j e => entry (expanded j) e).flatten =
      textAll 1 (f.scenarios.map ofEntry) := by
    rw [Chunk.concat_flatten, textAll_map]
    refine congrArg _ (map_mapIdx_eq_map fun j e he => ?_)
    rw [h j e he]
    exact concat_entry e
  rw [feature, List.cons_append, List.cons_append, List.cons_append]
  refine concat_line ?_ _
  rw [Chunk.concat_append, Chunk.concat_append, Chunk.concat_append, concat_tagLine,
    concat_description, concat_background, hentries, textAll_append, textAll_append, textAll_append]

theorem concat_features (s : FeatureSet) : Chunk.concat (features s) =
    String.intercalate "\n" (s.features.map fun f => (ofFeature f).text 0) := by
  have hfeatures : (s.features.mapIdx fun i f =>
      feature ((Expansions.compute s).get? i) f).map Chunk.concat =
        s.features.map fun f => (ofFeature f).text 0 :=
    map_mapIdx_eq_map fun i f hf => concat_feature fun j e he => Expansions.get?_compute hf he
  rw [features, Chunk.concat_intercalate, hfeatures]

theorem concat_errors (s : Summary) : Chunk.concat (errors s) =
    if s.failures = [] then ""
    else (if s.features.features = [] then "" else "\n") ++ "Parser Errors:\n" ++
      String.join (s.failures.flatMap fun file => file.errors.map fun e =>
        file.path ++ ":" ++ e.line.repr ++ " " ++ e.message ++ "\n") := by
  have herrors : Chunk.concat (s.errors.map fun error => parseError error.1 error.2) =
      String.join (s.failures.flatMap fun file => file.errors.map fun e =>
        file.path ++ ":" ++ e.line.repr ++ " " ++ e.message ++ "\n") := by
    rw [Chunk.concat, Summary.errors, List.map_map, List.map_flatMap]
    simp only [List.map_map]
    rfl
  by_cases hfailures : s.failures = []
  · simp [errors, Summary.hasFailures, hfailures]
  · have hgap : Chunk.concat (if s.features.isEmpty then [] else [⟨.errorGap, "\n"⟩]) =
        if s.features.features = [] then "" else "\n" := by
      by_cases hfeatures : s.features.features = [] <;> simp [FeatureSet.isEmpty, hfeatures]
    have hfails : s.hasFailures = true := by simp [Summary.hasFailures, hfailures]
    rw [errors, if_pos hfails, if_neg hfailures, Chunk.concat_append, Chunk.concat_cons, hgap,
      herrors, String.append_assoc]

/-- **The text report says what is in the summary**: each feature with all that it consists of and
with the own expansion of each outline, and all errors. -/
theorem concat_chunks (s : Summary) : Chunk.concat (chunks s) = s.plainText := by
  rw [chunks, Chunk.concat_append, concat_features, concat_errors, Summary.plainText]

end TextReport

end FeatureDoc
