import FeatureDoc.Proofs.Grammar.Feature

/-!
# Following the readers of a feature

What a feature was read from can be followed along its readers: headings, steps and tables, one
after the other, each from the tokens that the one before it left.

* A `Path` collects items on the way. `Passes ts rest items` says that going from `ts` to `rest`
  collects `items`; going on from where one stopped appends. `Path.loop` follows a loop,
  `Path.skip_heading` and `Path.step_table` are for paths along tables only.
* A `Trail` is a path through a feature: it says what a heading, a step and a table of examples add.
* `Trail.ofFeature` are the items of a feature in reading order, and `Trail.passes_feature` is the
  main statement: reading a feature collects exactly these. Every fact about the parts of a feature
  in order is a trail.
-/

namespace FeatureDoc

/-! ## Paths -/

/-- Items that are collected while tokens are read. -/
structure Path (β : Type) where
  /-- Going from `ts` to `rest` collects `items`. -/
  Passes : List Token → List Token → List β → Prop
  /-- Skipping tokens collects nothing. -/
  skip : ∀ {ts rest}, rest <:+ ts → Passes ts rest []
  /-- Going on from where one stopped appends. -/
  append : ∀ {ts mid rest items items'}, Passes ts mid items → Passes mid rest items' →
    Passes ts rest (items ++ items')

namespace Path

variable {β : Type} (P : Path β) {ts mid rest : List Token} {items : List β}

/-- Tokens may be skipped before. -/
theorem of_suffix (hmid : mid <:+ ts) (h : P.Passes mid rest items) : P.Passes ts rest items :=
  P.append (P.skip hmid) h

/-- Tokens may be skipped afterwards. -/
theorem to_suffix (h : P.Passes ts mid items) (hrest : rest <:+ mid) : P.Passes ts rest items := by
  have := P.append h (P.skip hrest)
  rwa [List.append_nil] at this

/-- A loop collects the items of its rounds. -/
theorem loop {α : Type} {L : List Token → Parsed (List α)} {R : List Token → Parsed α}
    {C : Kind → Prop} {items : α → List β} (h : Repeats L R List.cons [] C)
    (hR : ∀ {ts a rest}, R ts = .ok (a, rest) → P.Passes ts rest (items a)) {as : List α}
    (hL : L ts = .ok (as, rest)) : P.Passes ts rest (as.flatMap items) := by
  induction ts using h.induction generalizing as with
  | step ts ih =>
    rcases h.eq_ok hL with ⟨-, rfl, rfl⟩ | ⟨a, as', mid, hk, ha, hmid, rfl⟩
    · exact P.skip List.suffix_rfl
    · rw [List.flatMap_cons]
      exact P.append (hR ha) (ih a mid hk ha hmid)

/-- A heading may be skipped. -/
theorem skip_heading {t : Token} {title : String} (hmid : mid <:+ ts)
    (h : readHeading mid = .ok (title, rest)) : P.Passes (t :: ts) rest [] := by
  have hrest := Parsed.suffix_of_eq_ok (rest_readHeading_suffix mid) h
  exact P.skip ((hrest.trans hmid).trans (List.suffix_cons t ts))

section Table

variable {items : Table → List β} (hitems : ∀ {ts rest table},
  tableReader ts = .ok (table, rest) → P.Passes ts rest (items table))

include hitems

theorem readTable? {table : Option Table} (h : Step.readTable? ts = .ok (table, rest)) :
    P.Passes ts rest (table.toList.flatMap items) := by
  rcases Step.readTable?_cases h with ⟨rfl, rfl⟩ | ⟨t, rfl, htable⟩
  · exact P.skip List.suffix_rfl
  · rw [Option.toList_some, List.flatMap_singleton]
    exact hitems htable

/-- Of a step, only the items of its table are collected. -/
theorem step_table {keyword : Token} {step : Step} (h : Step.read keyword ts = .ok (step, rest)) :
    P.Passes (keyword :: ts) rest (step.table.toList.flatMap items) := by
  obtain ⟨body, r₁, table, r₂, hline, htable, rfl, rfl⟩ := Step.read_cases h
  have hr₁ := Parsed.suffix_of_eq_ok (StepText.rest_readLine_suffix .empty ts) hline
  have hbody := (skipNewline_suffix r₁).trans (hr₁.trans (List.suffix_cons keyword ts))
  exact P.to_suffix (P.of_suffix hbody (P.readTable? hitems htable))
    (Step.readBlock_suffix body.trim r₂)

end Table

end Path

/-! ## Trails -/

/-- Items that are collected while a feature is read. -/
structure Trail (β : Type) extends Path β where
  /-- The items of a heading whose keyword stands on a line. -/
  line : Nat → List β
  /-- The items of a step. -/
  step : Step → List β
  /-- The items of the examples of an outline. -/
  table : Table → List β
  /-- A heading, from its keyword on. -/
  heading : ∀ {t ts mid title rest}, mid <:+ ts → readHeading mid = .ok (title, rest) →
    Passes (t :: ts) rest (line t.line)
  /-- A step, from its keyword on. -/
  step_read : ∀ {keyword ts step' rest}, keyword.kind.isStepKeyword = true →
    Step.read keyword ts = .ok (step', rest) → Passes (keyword :: ts) rest (step step')
  /-- A table of examples. -/
  table_read : ∀ {ts table' rest}, tableReader ts = .ok (table', rest) →
    Passes ts rest (table table')

namespace Trail

variable {β : Type} (T : Trail β) {ts rest : List Token}

/-- The items of an entry in reading order. -/
def ofEntry (e : Entry) : List β :=
  T.line e.line ++ (e.steps.flatMap T.step ++ (e.examples?.map T.table).getD [])

/-- The items of a feature in reading order. -/
def ofFeature (f : Feature) : List β :=
  T.line f.line ++ ((f.background.getD []).flatMap T.step ++ f.scenarios.flatMap T.ofEntry)

/-! ## Steps -/

theorem passes_readRound {error : Token → ParseError} {step : Step}
    (h : Step.readRound error ts = .ok (step, rest)) : T.Passes ts rest (T.step step) := by
  obtain ⟨keyword, mid, after, rfl, hkeyword, hread, rfl⟩ := Step.readRound_cases h
  exact T.to_suffix (T.step_read hkeyword hread) (skipTrivia_suffix after)

theorem passes_readBlockOf {owner : StepOwner} {steps : List Step}
    (h : Step.readBlockOf owner ts = .ok (steps, rest)) :
    T.Passes ts rest (steps.flatMap T.step) := by
  obtain ⟨_, step, mid, steps', hround, hall, rfl⟩ := Step.readBlockOf_cases h
  rw [List.flatMap_cons]
  refine T.of_suffix (skipTrivia_suffix ts) (T.append (T.passes_readRound hround) ?_)
  exact T.loop (Step.readAll_repeats (ParseError.unexpected .eof)) T.passes_readRound hall

/-! ## Entries and features -/

theorem passes_entry {entry : Entry} (h : Entry.readRound ts = .ok (entry, rest)) :
    T.Passes ts rest (T.ofEntry entry) := by
  obtain ⟨tags, mid, htags, hround⟩ := Parsed.andThen_eq_ok.1 h
  have hmid := Parsed.suffix_of_eq_ok (Entry.reads_readOpenTags.rest_suffix ts) htags
  apply T.of_suffix hmid
  obtain ⟨t, r₁, r₂, title, r₃, owner, r₄, rfl, hline, hr₂, hheading, hsteps, hend⟩ :=
    Entry.readKeyworded_cases hround
  rw [ofEntry, hline]
  refine T.append (T.heading hr₂ hheading) (T.append (T.passes_readBlockOf hsteps) ?_)
  rcases hend with ⟨hnone, rfl⟩ | ⟨table, r₅, r₆, hsome, hr₅, htable, hrest⟩
  · rw [hnone]
    exact T.skip List.suffix_rfl
  · rw [hsome]
    exact T.of_suffix hr₅ (T.to_suffix (T.table_read htable) hrest)

theorem passes_readBackground? {background : Option (List Step)}
    (h : Feature.readBackground? ts = .ok (background, rest)) :
    T.Passes ts rest ((background.getD []).flatMap T.step) := by
  rcases Feature.readBackground?_cases h with ⟨rfl, rfl⟩ | ⟨_, mid, steps, rfl, hheading, hsteps⟩
  · exact T.skip List.suffix_rfl
  · have hmid := Parsed.suffix_of_eq_ok (rest_readHeading_suffix ts.tail) hheading
    exact T.of_suffix (hmid.trans (List.tail_suffix ts)) (T.passes_readBlockOf hsteps)

/-- **Reading a feature collects its items in reading order.** -/
theorem passes_feature {feature : Feature} (h : Feature.read ts = .ok (feature, rest)) :
    T.Passes ts rest (T.ofFeature feature) := by
  obtain ⟨keyword, r₁, title, r₂, r₃, htags, hline, hheading, hback, hentries⟩ :=
    Feature.read_cases h
  have hkeyword := readTags_suffix ts
  rw [htags] at hkeyword
  have hdescription := Feature.reads_readDescription.rest_suffix r₂
  rw [ofFeature, hline]
  refine T.of_suffix hkeyword (T.append (T.heading List.suffix_rfl hheading) ?_)
  refine T.of_suffix hdescription (T.append (T.passes_readBackground? hback) ?_)
  exact T.loop Entry.readAll_repeats T.passes_entry hentries

end Trail

end FeatureDoc
