import FeatureDoc.Proofs.Document.Trail
import FeatureDoc.Proofs.Grammar.Acceptance
import FeatureDoc.Proofs.Outline.Substitution

/-!
# Placeholders of a document

In a document that was read, the data placeholders of every step are those of its number and string
tokens, and expanding an outline keeps placeholders and data together.

* `StepSpans ts rest spans` lists the steps that are read between `ts` and `rest`, each with its own
  tokens; `stepTrail` follows them through a feature.
* `Step.aligned_of_read` is the alignment of one step, `Step.aligned_of_substitute` that of a step
  with the values of a row.
* `placeholders_aligned` is the main statement.
-/

namespace FeatureDoc

/-! ## The steps of a document -/

/-- The placeholders of a step and the characters between them. -/
def Step.segments (s : Step) : List Segment := FeatureDoc.segments s.text.toList

/-- All steps of a feature, in reading order. -/
def Feature.steps (f : Feature) : List Step :=
  f.background.getD [] ++ f.scenarios.flatMap Entry.steps

/-- All steps of a set, in reading order. -/
def FeatureSet.steps (s : FeatureSet) : List Step := s.features.flatMap Feature.steps

/-- The steps that are read between `ts` and `rest`, one after the other, each with the tokens that
belong to it after its keyword. -/
inductive StepSpans : List Token → List Token → List (Step × List Token) → Prop
  | done {ts rest : List Token} (h : rest <:+ ts) : StepSpans ts rest []
  | step {ts body mid rest : List Token} {step : Step} {spans : List (Step × List Token)}
      (h : step.keyword :: (body ++ mid) <:+ ts)
      (hread : Step.read step.keyword (body ++ mid) = .ok (step, mid))
      (hmore : StepSpans mid rest spans) : StepSpans ts rest ((step, body) :: spans)

namespace StepSpans

theorem of_suffix {ts mid rest : List Token} {spans : List (Step × List Token)}
    (h : StepSpans mid rest spans) (hmid : mid <:+ ts) : StepSpans ts rest spans := by
  cases h with
  | done h => exact .done (h.trans hmid)
  | step h hread hmore => exact .step (h.trans hmid) hread hmore

theorem append {ts mid rest : List Token} {spans spans' : List (Step × List Token)}
    (h : StepSpans ts mid spans) (h' : StepSpans mid rest spans') :
    StepSpans ts rest (spans ++ spans') := by
  induction h with
  | done h => exact h'.of_suffix h
  | step h hread _ ih => exact .step h hread (ih h')

/-- What a span says about its step. -/
theorem of_mem {ts rest : List Token} {spans : List (Step × List Token)}
    (h : StepSpans ts rest spans) {step : Step} {body : List Token} (hmem : (step, body) ∈ spans) :
    ∃ mid, step.keyword :: (body ++ mid) <:+ ts ∧
      Step.read step.keyword (body ++ mid) = .ok (step, mid) := by
  induction h with
  | done h => cases hmem
  | @step ts body' mid rest step' spans h hread _ ih =>
    rcases List.mem_cons.1 hmem with heq | hmem
    · cases heq
      exact ⟨mid, h, hread⟩
    · obtain ⟨mid', hsuffix, hread'⟩ := ih hmem
      have hmid : mid <:+ ts :=
        ((List.suffix_append body' mid).trans (List.suffix_cons _ _)).trans h
      exact ⟨mid', hsuffix.trans hmid, hread'⟩

end StepSpans

/-- The steps of a feature, with their tokens. -/
def stepTrail : Trail Step where
  Passes ts rest steps := ∃ spans, StepSpans ts rest spans ∧ spans.map Prod.fst = steps
  line _ := []
  step s := [s]
  table _ := []
  skip h := ⟨[], .done h, rfl⟩
  append := by
    rintro ts mid rest _ _ ⟨spans, hspans, rfl⟩ ⟨spans', hspans', rfl⟩
    exact ⟨spans ++ spans', hspans.append hspans', List.map_append⟩
  heading := by
    intro t ts mid title rest hmid hheading
    have hrest := Parsed.suffix_of_eq_ok (rest_readHeading_suffix mid) hheading
    exact ⟨[], .done ((hrest.trans hmid).trans (List.suffix_cons t ts)), rfl⟩
  step_read := by
    intro keyword ts step rest _ h
    obtain ⟨body, rfl⟩ := Parsed.suffix_of_eq_ok (Step.rest_read_suffix keyword ts) h
    obtain ⟨_, _, _, _, -, -, rfl, -⟩ := Step.read_cases h
    exact ⟨[(_, body)], .step List.suffix_rfl h (.done List.suffix_rfl), rfl⟩
  table_read := by
    intro ts table rest h
    exact ⟨[], .done (Parsed.suffix_of_eq_ok (reads_tableReader.rest_suffix ts) h), rfl⟩

theorem stepTrail_ofFeature (f : Feature) : stepTrail.ofFeature f = f.steps := by
  have hentry : ∀ e : Entry, stepTrail.ofEntry e = e.steps := by
    intro e
    cases e <;> simp [Trail.ofEntry, stepTrail, Entry.examples?]
  rw [Trail.ofFeature, funext hentry]
  simp [Feature.steps, stepTrail]

/-- The steps of a document that was read, with their tokens. -/
theorem exists_stepSpans {source : String} {set : FeatureSet} (h : parse source = .ok set) :
    ∃ spans, StepSpans (tokens source) [] spans ∧ spans.map Prod.fst = set.steps := by
  obtain ⟨feature, rest, rfl, hfeature, -⟩ := exists_read_of_parse h
  obtain ⟨spans, hspans, hsteps⟩ := stepTrail.to_suffix (stepTrail.passes_feature hfeature)
    (List.nil_suffix (l := rest))
  refine ⟨spans, hspans, ?_⟩
  rw [hsteps, stepTrail_ofFeature]
  simp [FeatureSet.steps]

/-! ## One step -/

theorem Token.isNumber_of_datum? {t : Token} (ht : t.Spelled) {p : Placeholder} {d : String}
    (h : t.datum? = some (p, d)) (hp : p = .number) : isNumber d.toList = true := by
  unfold Token.datum? at h
  split at h
  · next hk =>
    obtain ⟨-, rfl⟩ := Prod.mk.inj (Option.some.inj h)
    obtain ⟨hne, hdigits⟩ := ht.number hk
    simpa [isNumber, hne] using hdigits
  · cases h
    cases hp
  · cases h
    cases hp
  · cases h

/-- The placeholders of a step that was read, and its data, are those of its tokens. -/
structure Step.Aligned (s : Step) (ds : List (Placeholder × String)) : Prop where
  /-- The text is well spaced. -/
  wellSpaced : WellSpaced s.segments
  /-- The data placeholders are the first column. -/
  marks : dataMarks s.segments = ds.map Prod.fst
  /-- The data are the second column. -/
  data : s.data = ds.map Prod.snd

theorem Step.aligned_of_read {keyword : Token} {body rest : List Token} {step : Step}
    (hbody : ∀ t ∈ body, t.Spelled) (h : Step.read keyword (body ++ rest) = .ok (step, rest)) :
    step.Aligned (body.filterMap Token.datum?) := by
  obtain ⟨s, segs, htext, hdata, hwritten⟩ := Step.written_of_read hbody h
  have hsegs : step.segments = segs := by
    rw [Step.segments, htext, String.toList_ofList, hwritten.text,
      hwritten.wellSpaced.segments_chars]
  exact ⟨hsegs ▸ hwritten.wellSpaced, hsegs ▸ hwritten.marks, hdata.trans hwritten.data⟩

namespace Step.Aligned

variable {s : Step} {ds : List (Placeholder × String)}

theorem length_eq (h : s.Aligned ds) : (dataMarks s.segments).length = s.data.length := by
  rw [h.marks, h.data, List.length_map, List.length_map]

theorem zip_eq (h : s.Aligned ds) : (dataMarks s.segments).zip s.data = ds := by
  rw [h.marks, h.data, List.zip_map', List.map_id']

theorem paired (h : s.Aligned ds) (hds : ∀ d ∈ ds, d.1 = .number → isNumber d.2.toList = true) :
    Paired s.segments s.data := by
  refine List.forall₂_iff_zip.2 ⟨h.length_eq, fun {p d} hmem => ?_⟩
  rw [h.zip_eq] at hmem
  exact hds (p, d) hmem

end Step.Aligned

/-- A step with the values of a row is well spaced, holds no reference and keeps its pairs. -/
theorem Step.aligned_of_substitute {s step : Step} {columns : List String} {r : Record}
    (hs : WellSpaced s.segments) (hpaired : Paired s.segments s.data)
    (h : s.substitute columns r = .ok step) :
    WellSpaced step.segments ∧ (∀ name, .mark (.reference name) ∉ step.segments) ∧
      Paired step.segments step.data := by
  obtain ⟨⟨text, data⟩, hsubst, heq⟩ := bind_eq_ok_iff.1 h
  obtain ⟨segs, rfl, hres, hpaired'⟩ := Record.resolves_of_substitute hs.isChain hpaired hsubst
  cases heq
  have hsegs : FeatureDoc.segments (String.ofList (segs.flatMap Segment.chars)).toList = segs := by
    rw [String.toList_ofList, hres.wellSpaced.segments_chars]
  unfold Step.segments
  rw [hsegs]
  exact ⟨hres.wellSpaced, hres.reference, hpaired'⟩

/-! ## All steps -/

theorem aligned_of_mem_spans {source : String} {spans : List (Step × List Token)}
    (h : StepSpans (tokens source) [] spans) {step : Step} {body : List Token}
    (hmem : (step, body) ∈ spans) :
    step.Aligned (body.filterMap Token.datum?) ∧ Paired step.segments step.data := by
  obtain ⟨mid, hsuffix, hread⟩ := h.of_mem hmem
  have hbody : ∀ t ∈ body, t.Spelled := fun t ht => (stream_tokens source).spelled t
    (hsuffix.subset (List.mem_cons_of_mem _ (List.mem_append_left mid ht)))
  have haligned := Step.aligned_of_read hbody hread
  refine ⟨haligned, haligned.paired fun d hd => ?_⟩
  obtain ⟨t, ht, hdatum⟩ := List.mem_filterMap.1 hd
  exact Token.isNumber_of_datum? (hbody t ht) hdatum

theorem FeatureSet.mem_steps_of_outline {set : FeatureSet} {o : Outline} {s : Step}
    (ho : .outline o ∈ set.entries) (hs : s ∈ o.steps) : s ∈ set.steps := by
  obtain ⟨f, hf, hentry⟩ := List.mem_flatMap.1 ho
  refine List.mem_flatMap.2 ⟨f, hf, List.mem_append_right _ ?_⟩
  exact List.mem_flatMap.2 ⟨.outline o, hentry, hs⟩

/-- **Placeholders and data are aligned in every document that is read, and stay so when its
outlines are expanded.** The steps of the document are read from stretches of its tokens, one after
the other; the data placeholders of a step, zipped with its data, are the number and string tokens
of its stretch. A step of an expanded outline has as many data placeholders as data, only numbers
for numbers, and no reference. Outside the placeholders there are no double braces. -/
theorem placeholders_aligned {source : String} {set : FeatureSet} (h : parse source = .ok set) :
    (∃ spans, StepSpans (tokens source) [] spans ∧ spans.map Prod.fst = set.steps ∧
      ∀ step body, (step, body) ∈ spans →
        (dataMarks step.segments).length = step.data.length ∧
        (dataMarks step.segments).zip step.data = body.filterMap Token.datum? ∧
        hasDelimiter (outside step.segments) = false) ∧
    ∀ o, .outline o ∈ set.entries → ∀ scenarios, o.expand = .ok scenarios →
      ∀ sc ∈ scenarios, ∀ step ∈ sc.steps,
        (dataMarks step.segments).length = step.data.length ∧
        (∀ pair ∈ (dataMarks step.segments).zip step.data,
          pair.1 = .number → isNumber pair.2.toList = true) ∧
        (∀ name, .mark (.reference name) ∉ step.segments) ∧
        hasDelimiter (outside step.segments) = false := by
  obtain ⟨spans, hspans, hsteps⟩ := exists_stepSpans h
  refine ⟨⟨spans, hspans, hsteps, fun step body hmem => ?_⟩, ?_⟩
  · obtain ⟨haligned, -⟩ := aligned_of_mem_spans hspans hmem
    exact ⟨haligned.length_eq, haligned.zip_eq, haligned.wellSpaced.hasDelimiter_outside⟩
  · intro o ho scenarios hexpand sc hsc step hstep
    obtain ⟨columns, r, s, hs, hsubst⟩ := Outline.substitute_of_expand hexpand hsc hstep
    have hmem := FeatureSet.mem_steps_of_outline ho hs
    rw [← hsteps] at hmem
    obtain ⟨⟨_, body⟩, hspan, rfl⟩ := List.mem_map.1 hmem
    obtain ⟨haligned, hpaired⟩ := aligned_of_mem_spans hspans hspan
    obtain ⟨hspaced, href, hpaired'⟩ :=
      Step.aligned_of_substitute haligned.wellSpaced hpaired hsubst
    obtain ⟨hlength, hzip⟩ := List.forall₂_iff_zip.1 hpaired'
    exact ⟨hlength, fun pair hpair => hzip hpair, href, hspaced.hasDelimiter_outside⟩

/-- An outline with braces around a reference, a value that is a brace and one that is a number: the
number becomes the first datum of the expanded step, the brace becomes prose. -/
theorem placeholders_aligned_braces : ∃ source set o scenarios,
    source = "Feature: f\nScenario Outline: o\nGiven \x7b<a>\x7d 3<b>\n\"\"\"d\"\"\"\n" ++
      "Examples:\n| a | b |\n| 7 | \x7b |\n" ∧
    parse source = .ok set ∧ .outline o ∈ set.entries ∧ o.expand = .ok scenarios ∧
    (∃ sc ∈ scenarios, ∃ step ∈ sc.steps, step.data = ["7", "3", "d"]) ∧
    (∃ spans, StepSpans (tokens source) [] spans ∧ spans.map Prod.fst = set.steps ∧
      ∀ step body, (step, body) ∈ spans →
        (dataMarks step.segments).zip step.data = body.filterMap Token.datum?) ∧
    ∀ sc ∈ scenarios, ∀ step ∈ sc.steps,
      (dataMarks step.segments).length = step.data.length ∧
      ∀ name, .mark (.reference name) ∉ step.segments := by
  have h : parse ("Feature: f\nScenario Outline: o\nGiven \x7b<a>\x7d 3<b>\n\"\"\"d\"\"\"\n" ++
      "Examples:\n| a | b |\n| 7 | \x7b |\n") =
      .ok ⟨[⟨"f", 1, [], [], none, [.outline ⟨⟨"o", 2, [], [⟨⟨.step .given, "Given", 3⟩,
        "\x7b \x7b\x7b<a>\x7d\x7d \x7d \x7b\x7bd\x7d\x7d \x7b\x7b<b>\x7d\x7d\n\x7b\x7bs\x7d\x7d",
        ["3", "d"], none, 3⟩]⟩, ⟨[[⟨"a", 6⟩, ⟨"b", 6⟩], [⟨"7", 7⟩, ⟨"\x7b", 7⟩]]⟩⟩]⟩]⟩ := by
    decide +kernel
  have hexpand : Outline.expand ⟨⟨"o", 2, [], [⟨⟨.step .given, "Given", 3⟩,
      "\x7b \x7b\x7b<a>\x7d\x7d \x7d \x7b\x7bd\x7d\x7d \x7b\x7b<b>\x7d\x7d\n\x7b\x7bs\x7d\x7d",
      ["3", "d"], none, 3⟩]⟩, ⟨[[⟨"a", 6⟩, ⟨"b", 6⟩], [⟨"7", 7⟩, ⟨"\x7b", 7⟩]]⟩⟩ =
      .ok [⟨"o", 7, [], [⟨⟨.step .given, "Given", 3⟩,
        "\x7b \x7b\x7bd\x7d\x7d \x7d \x7b\x7bd\x7d\x7d \x7b\n\x7b\x7bs\x7d\x7d",
        ["7", "3", "d"], none, 3⟩]⟩] := by
    decide +kernel
  obtain ⟨⟨spans, hspans, hsteps, haligned⟩, hall⟩ := placeholders_aligned h
  refine ⟨_, _, _, _, rfl, h, List.mem_cons_self, hexpand, ?_, ⟨spans, hspans, hsteps, ?_⟩, ?_⟩
  · exact ⟨_, List.mem_cons_self, _, List.mem_cons_self, rfl⟩
  · exact fun step body hmem => (haligned step body hmem).2.1
  · intro sc hsc step hstep
    obtain ⟨hlength, -, href, -⟩ := hall _ List.mem_cons_self _ hexpand sc hsc step hstep
    exact ⟨hlength, href⟩

end FeatureDoc
