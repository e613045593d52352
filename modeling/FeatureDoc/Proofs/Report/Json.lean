import FeatureDoc.Proofs.Json.Printer
import FeatureDoc.Proofs.Outline.Expansion
import FeatureDoc.Run.Execute

/-!
# What the JSON report says

Who reads the report gets the summary back, as far as it is reported: features down to the cells of
their tables, the expansion of each outline, and errors without the bounds between files.

* `SummaryView.of` is what is reported of a summary. `SummaryView.ofJson?` reads it from a value,
  member by member, and `SummaryView.ofText?` from a text.
* `SummaryView.ofJson?_value` says that it is read back from the value of the summary.
* `Summary.report_json` is the main statement: the report is one JSON text and a line end, what is
  reported is read back from it, and so summaries with the same report agree on that.
-/

namespace FeatureDoc

/-! ## Reading members -/

namespace Json

variable {α β : Type}

/-- A string. -/
def asString? : Json → Option String
  | .string s => some s
  | _ => none

/-- A number. -/
def asNumber? : Json → Option Nat
  | .number n => some n
  | _ => none

/-- An array, item by item. -/
def asArray? (read : Json → Option α) : Json → Option (List α)
  | .array xs => xs.mapM read
  | _ => none

/-- A value, unless it is null. -/
def asNullable? (read : Json → Option α) : Json → Option (Option α)
  | .null => some none
  | j => (read j).map some

/-- The values of all members of a name. -/
def valuesOf (name : String) : Json → List Json
  | .object ms => (ms.filter fun m => m.1 == name).map Prod.snd
  | _ => []

/-- The only member of a name. -/
def required? (name : String) (read : Json → Option α) (j : Json) : Option α :=
  match j.valuesOf name with
  | [x] => read x
  | _ => none

/-- The only member of a name, if there is one. -/
def optional? (name : String) (read : Json → Option α) (j : Json) : Option (Option α) :=
  match j.valuesOf name with
  | [] => some none
  | [x] => (read x).map some
  | _ => none

@[simp]
theorem asString?_string (s : String) : asString? (.string s) = some s := rfl

@[simp]
theorem asNumber?_number (n : Nat) : asNumber? (.number n) = some n := rfl

/-- An array is read item by item. -/
theorem asArray?_map {read : Json → Option α} {f : β → Json} {v : β → α} {l : List β}
    (h : ∀ b ∈ l, read (f b) = some (v b)) :
    asArray? read (.array (l.map f)) = some (l.map v) := by
  rw [asArray?]
  induction l with
  | nil => rfl
  | cons b l ih =>
    obtain ⟨hb, hl⟩ := List.forall_mem_cons.1 h
    rw [List.map_cons, List.mapM_cons, hb, ih hl]
    rfl

/-- The same for an array whose items depend on their places. -/
theorem asArray?_mapIdx {read : Json → Option α} {f : Nat → β → Json} {v : β → α} {l : List β}
    (h : ∀ i b, l[i]? = some b → read (f i b) = some (v b)) :
    asArray? read (.array (l.mapIdx f)) = some (l.map v) := by
  have hread : ∀ x ∈ l.zipIdx, read (f x.2 x.1) = some (v x.1) := fun x hx =>
    h x.2 x.1 (List.mem_zipIdx_iff_getElem?.1 hx)
  rw [List.mapIdx_eq_zipIdx_map, asArray?_map hread, ← Function.comp_def v Prod.fst,
    ← List.map_map, List.zipIdx_map_fst]

@[simp]
theorem asArray?_strings (texts : List String) :
    asArray? asString? (strings texts) = some texts := by
  rw [strings, asArray?_map (v := id) fun s _ => asString?_string s, List.map_id]

@[simp]
theorem asArray?_table (t : Table) : asArray? (asArray? asString?) (JsonReport.table t) =
    some (t.rows.map fun row => row.map Cell.literal) := by
  rw [JsonReport.table, asArray?_map (v := id) fun texts _ => asArray?_strings texts,
    List.map_id, Table.literals]

@[simp]
theorem required?_object (name : String) (read : Json → Option α) (ms : List (String × Json)) :
    required? name read (.object ms) =
      match (ms.filter fun m => m.1 == name).map Prod.snd with
      | [x] => read x
      | _ => none := rfl

@[simp]
theorem optional?_object (name : String) (read : Json → Option α) (ms : List (String × Json)) :
    optional? name read (.object ms) =
      match (ms.filter fun m => m.1 == name).map Prod.snd with
      | [] => some none
      | [x] => (read x).map some
      | _ => none := rfl

end Json

open Json

/-! ## Steps -/

/-- What is reported of a step. -/
structure StepView where
  keyword : String
  text : String
  line : Nat
  data : List String
  table : Option (List (List String))
  deriving DecidableEq, Repr

namespace StepView

/-- The view of a step. -/
def of (s : Step) : StepView where
  keyword := s.keyword.literal
  text := s.text
  line := s.line
  data := s.data
  table := s.table.map fun t => t.rows.map fun row => row.map Cell.literal

/-- Read the view of a step. -/
def ofJson? (j : Json) : Option StepView := do
  return {
    keyword := ← j.required? "keyword" asString?
    text := ← j.required? "text" asString?
    line := ← j.required? "line" asNumber?
    data := (← j.optional? "data" (asArray? asString?)).getD []
    table := ← j.optional? "table" (asArray? (asArray? asString?)) }

theorem ofJson?_step (s : Step) : ofJson? (JsonReport.step s) = some (of s) := by
  by_cases hdata : s.data = [] <;> cases htable : s.table <;>
    simp [ofJson?, of, JsonReport.step, member?, hdata, htable]

theorem asArray?_steps (ss : List Step) :
    asArray? ofJson? (JsonReport.steps ss) = some (ss.map of) :=
  asArray?_map fun s _ => ofJson?_step s

end StepView

/-! ## Scenarios -/

/-- What is reported of a scenario. -/
structure ScenarioView where
  title : String
  line : Nat
  tags : List String
  steps : List StepView
  deriving DecidableEq, Repr

namespace ScenarioView

/-- The view of a scenario. -/
def of (s : Scenario) : ScenarioView where
  title := s.text
  line := s.line
  tags := s.tags
  steps := s.steps.map .of

/-- Read the view of a scenario of an outline, whose tags it has. -/
def concreteOfJson? (tags : List String) (j : Json) : Option ScenarioView := do
  return {
    title := ← j.required? "title" asString?
    line := ← j.required? "line" asNumber?
    tags := tags
    steps := ← j.required? "steps" (asArray? StepView.ofJson?) }

/-- Read the view of a scenario. -/
def ofJson? (j : Json) : Option ScenarioView := do
  concreteOfJson? (← j.required? "tags" (asArray? asString?)) j

theorem concreteOfJson?_concrete (s : Scenario) :
    concreteOfJson? s.tags (JsonReport.concrete s) = some (of s) := by
  simp [concreteOfJson?, of, JsonReport.concrete, StepView.asArray?_steps]

theorem ofJson?_entry (expanded : Option (Except ExpandError (List Scenario))) (e : Entry) :
    ofJson? (JsonReport.entry expanded e) = some (of e.base) := by
  have hexamples : ∀ name ∈ ["title", "line", "tags", "steps"],
      ((JsonReport.examples e).filter fun m => m.1 == name) = [] := by
    cases e <;> simp [JsonReport.examples]
  have hexpansion : ∀ name ∈ ["title", "line", "tags", "steps"],
      ((JsonReport.expansion expanded).filter fun m => m.1 == name) = [] := by
    rcases expanded with _ | _ | _ <;> simp [JsonReport.expansion]
  simp only [List.forall_mem_cons] at hexamples hexpansion
  simp [ofJson?, concreteOfJson?, of, JsonReport.entry, StepView.asArray?_steps, hexamples,
    hexpansion, Entry.text, Entry.line, Entry.tags, Entry.steps]

end ScenarioView

/-- What is reported of a scenario or an outline. -/
inductive EntryView where
  | scenario (base : ScenarioView)
  /-- The texts of the examples, and the scenarios or why there are none. -/
  | outline (base : ScenarioView) (examples : List (List String))
    (expansion : Except String (List ScenarioView))

namespace EntryView

/-- The view of an expansion. -/
def expansion : Except ExpandError (List Scenario) → Except String (List ScenarioView)
  | .ok scenarios => .ok (scenarios.map .of)
  | .error e => .error e.message

/-- The view of a scenario or an outline. -/
def of : Entry → EntryView
  | .scenario s => .scenario (.of s)
  | .outline o =>
    .outline (.of o.toScenario) (o.examples.rows.map fun row => row.map Cell.literal)
      (expansion o.expand)

/-- Read the view of the expansion of an outline. -/
def expansionOfJson? (tags : List String) (j : Json) :
    Option (Except String (List ScenarioView)) := do
  let scenarios ← j.optional? "expanded" (asArray? (ScenarioView.concreteOfJson? tags))
  let message ← j.optional? "expansion_error" asString?
  match scenarios, message with
  | some scenarios, none => some (.ok scenarios)
  | none, some message => some (.error message)
  | _, _ => none

/-- Read the view of a scenario or an outline. -/
def ofJson? (j : Json) : Option EntryView := do
  let kind ← j.required? "kind" asString?
  let base ← ScenarioView.ofJson? j
  if kind = "scenario" then return .scenario base
  else if kind = "outline" then
    let examples ← j.required? "examples" (asArray? (asArray? asString?))
    return .outline base examples (← expansionOfJson? base.tags j)
  else none

theorem expansionOfJson?_entry (o : Outline) :
    expansionOfJson? o.tags (JsonReport.entry (some o.expand) (.outline o)) =
      some (expansion o.expand) := by
  cases hexpand : o.expand with
  | error e =>
    simp [expansionOfJson?, expansion, JsonReport.entry, JsonReport.examples, JsonReport.expansion]
  | ok scenarios =>
    have hscenarios : asArray? (ScenarioView.concreteOfJson? o.tags)
        (.array (scenarios.map JsonReport.concrete)) = some (scenarios.map .of) := by
      refine asArray?_map fun sc hsc => ?_
      rw [← Outline.tags_of_expand hexpand sc hsc]
      exact ScenarioView.concreteOfJson?_concrete sc
    simp [expansionOfJson?, expansion, JsonReport.entry, JsonReport.examples, JsonReport.expansion,
      hscenarios]

/-- An entry that is reported with its own expansion is read back. -/
theorem ofJson?_entry (e : Entry) :
    ofJson? (JsonReport.entry e.expansion? e) = some (of e) := by
  rw [ofJson?, ScenarioView.ofJson?_entry]
  cases e with
  | scenario s =>
    simp [of, JsonReport.entry, JsonReport.kind, JsonReport.examples, JsonReport.expansion,
      Entry.base, Entry.expansion?]
  | outline o =>
    have hkind : required? "kind" asString? (JsonReport.entry (some o.expand) (.outline o)) =
        some "outline" := by
      cases o.expand <;>
        simp [JsonReport.entry, JsonReport.kind, JsonReport.examples, JsonReport.expansion]
    have hexamples : required? "examples" (asArray? (asArray? asString?))
        (JsonReport.entry (some o.expand) (.outline o)) =
          some (o.examples.rows.map fun row => row.map Cell.literal) := by
      cases o.expand <;> simp [JsonReport.entry, JsonReport.examples, JsonReport.expansion]
    simp [of, Entry.base, Entry.expansion?, ScenarioView.of, hkind, hexamples,
      expansionOfJson?_entry]

end EntryView

/-! ## Features and errors -/

/-- What is reported of a feature. -/
structure FeatureView where
  title : String
  line : Nat
  tags : List String
  description : List String
  background : Option (List StepView)
  scenarios : List EntryView

namespace FeatureView

/-- The view of a feature. -/
def of (f : Feature) : FeatureView where
  title := f.title
  line := f.line
  tags := f.tags
  description := f.description
  background := f.background.map fun ss => ss.map .of
  scenarios := f.scenarios.map .of

/-- Read the view of a feature. -/
def ofJson? (j : Json) : Option FeatureView := do
  return {
    title := ← j.required? "title" asString?
    line := ← j.required? "line" asNumber?
    tags := ← j.required? "tags" (asArray? asString?)
    description := ← j.required? "description" (asArray? asString?)
    background := ← j.required? "background" (asNullable? (asArray? StepView.ofJson?))
    scenarios := ← j.required? "scenarios" (asArray? EntryView.ofJson?) }

/-- A feature that is reported with the expansions of its own entries is read back. -/
theorem ofJson?_feature {f : Feature}
    {expanded : Nat → Option (Except ExpandError (List Scenario))}
    (h : ∀ j e, f.scenarios[j]? = some e → expanded j = e.expansion?) :
    ofJson? (JsonReport.feature expanded f) = some (of f) := by
  have hbackground : asNullable? (asArray? StepView.ofJson?)
      ((f.background.map JsonReport.steps).getD .null) =
        some (f.background.map fun ss => ss.map .of) := by
    cases f.background with
    | none => rfl
    | some ss => exact congrArg (Option.map some) (StepView.asArray?_steps ss)
  have hscenarios : asArray? EntryView.ofJson?
      (.array (f.scenarios.mapIdx fun j e => JsonReport.entry (expanded j) e)) =
        some (f.scenarios.map .of) := by
    refine asArray?_mapIdx fun j e he => ?_
    rw [h j e he]
    exact EntryView.ofJson?_entry e
  simp [ofJson?, of, JsonReport.feature, hbackground, hscenarios]

end FeatureView

/-- What is reported of an error. -/
structure ErrorView where
  path : String
  line : Nat
  message : String
  deriving DecidableEq, Repr

namespace ErrorView

/-- The view of an error and the path of its file. -/
def of (error : String × ParseError) : ErrorView := ⟨error.1, error.2.line, error.2.message⟩

/-- Read the view of an error. -/
def ofJson? (j : Json) : Option ErrorView := do
  return {
    path := ← j.required? "path" asString?
    line := ← j.required? "line" asNumber?
    message := ← j.required? "message" asString? }

theorem ofJson?_parseError (error : String × ParseError) :
    ofJson? (JsonReport.parseError error.1 error.2) = some (of error) := by
  simp [ofJson?, of, JsonReport.parseError]

theorem map_of_errors (s : Summary) : s.errors.map of =
    s.failures.flatMap fun file => file.errors.map fun e => ⟨file.path, e.line, e.message⟩ := by
  simp [Summary.errors, List.map_flatMap, of, Function.comp_def]

end ErrorView

/-! ## Summaries -/

/-- What is reported of a summary. -/
structure SummaryView where
  features : List FeatureView
  errors : List ErrorView

namespace SummaryView

/-- The view of a summary. Errors are listed file by file. -/
def of (s : Summary) : SummaryView where
  features := s.features.features.map .of
  errors := s.failures.flatMap fun file => file.errors.map fun e => ⟨file.path, e.line, e.message⟩

/-- Read the view of a summary. -/
def ofJson? (j : Json) : Option SummaryView := do
  return {
    features := ← j.required? "features" (asArray? FeatureView.ofJson?)
    errors := (← j.optional? "errors" (asArray? ErrorView.ofJson?)).getD [] }

/-- What is reported is read back from the value of a summary. -/
theorem ofJson?_value (s : Summary) : ofJson? (JsonReport.value s) = some (of s) := by
  have hfeatures : asArray? FeatureView.ofJson? (.array (s.features.features.mapIdx fun i f =>
      JsonReport.feature ((Expansions.compute s.features).get? i) f)) =
        some (s.features.features.map .of) :=
    asArray?_mapIdx fun i f hf =>
      FeatureView.ofJson?_feature fun j e he => Expansions.get?_compute hf he
  have herrors := asArray?_map (l := s.errors) fun e _ => ErrorView.ofJson?_parseError e
  rw [ErrorView.map_of_errors] at herrors
  by_cases hempty : s.errors = []
  · have hview := ErrorView.map_of_errors s
    rw [hempty, List.map_nil] at hview
    simp [ofJson?, of, JsonReport.value, member?, hempty, hfeatures, ← hview]
  · simp [ofJson?, of, JsonReport.value, member?, hempty, hfeatures, herrors]

/-- Read a report, without the line end. -/
def ofText? (text : String) : Option SummaryView := (Json.ofText? text).bind ofJson?

theorem ofText?_pretty (s : Summary) : ofText? (JsonReport.value s).pretty = some (of s) := by
  rw [ofText?, ofText?_eq_some_iff.2 (isTextOf_pretty _), Option.bind_some, ofJson?_value]

end SummaryView

namespace Summary

theorem report_json_eq (s : Summary) :
    s.report .json none = .ok ((JsonReport.value s).pretty ++ "\n") := by
  simp [report, Format.chunks, JsonReport.chunks, Chunk.write, Chunk.concat, Except.mapError,
    String.join]

/-- **The JSON report is faithful.** It is one JSON text and a line end, what is reported of the
summary is read back from the text, and so summaries with the same report agree on it. -/
theorem report_json (s : Summary) :
    ∃ document : String, s.report .json none = .ok (document ++ "\n") ∧
      (∃! j : Json, j.IsTextOf document) ∧
      SummaryView.ofText? document = some (.of s) ∧
      ∀ s' : Summary, s'.report .json none = s.report .json none →
        SummaryView.of s' = SummaryView.of s := by
  have htext := isTextOf_pretty (JsonReport.value s)
  refine ⟨(JsonReport.value s).pretty, s.report_json_eq, ⟨_, htext, fun j hj => hj.unique htext⟩,
    SummaryView.ofText?_pretty s, fun s' h => ?_⟩
  rw [report_json_eq, report_json_eq, Except.ok.injEq, String.append_left_inj] at h
  have hread := SummaryView.ofText?_pretty s'
  rw [h, SummaryView.ofText?_pretty s] at hread
  exact (Option.some.inj hread).symm

/-- A summary of a feature and of files that could not be read. The table of the feature stands on
some line. -/
def sample (tableLine : Nat) (failures : List FileFailure) : Summary where
  features := ⟨[{
    title := "a \"b\"\\\n\x01é"
    line := 1
    tags := ["t"]
    description := []
    background := none
    scenarios := [.scenario {
      text := ""
      line := 2
      tags := []
      steps := [{
        keyword := ⟨.step .given, "Given", 3⟩
        text := "x"
        data := []
        table := some ⟨[[⟨"c", tableLine⟩], []]⟩
        line := 3 }] }] }]⟩
  failures := failures

/-- The lines of cells and the bounds between files are not reported. -/
theorem report_json_sample (e : ParseError) :
    (sample 4 [⟨"p", [e, e]⟩]).report .json none =
      (sample 5 [⟨"p", [e]⟩, ⟨"p", [e]⟩]).report .json none := by
  have hvalue : JsonReport.value (sample 4 [⟨"p", [e, e]⟩]) =
      JsonReport.value (sample 5 [⟨"p", [e]⟩, ⟨"p", [e]⟩]) := rfl
  rw [report_json_eq, report_json_eq, hvalue]

theorem report_json_of_sample :
    let s := sample 4 [⟨"p", [.reservedDelimiter 7, .reservedDelimiter 7]⟩]
    let s' := sample 5 [⟨"p", [.reservedDelimiter 7]⟩, ⟨"p", [.reservedDelimiter 7]⟩]
    s'.report .json none = s.report .json none ∧ SummaryView.of s' = SummaryView.of s := by
  intro s s'
  obtain ⟨-, -, -, -, hsame⟩ := report_json s
  have h : s'.report .json none = s.report .json none := (report_json_sample _).symm
  exact ⟨h, hsame s' h⟩

end Summary

end FeatureDoc
