import FeatureDoc.Proofs.Grammar.Steps

/-!
# Reading a feature

The readers of the larger parts of a feature follow the grammar of `Grammar.feature_eq`, in which
the next token decides every choice.

* `Entry.reads_readAll` is the law for scenarios and outlines: `Entry.readRound` is one round of the
  loop, an entry and the trivia after it.
* `Feature.reads_readDescription` is the law for descriptions.
* `Feature.reads_read` is the main statement: a feature is read up to the end of the text.
-/

namespace FeatureDoc

open FeatureDoc.Part

instance : Inhabited Entry := ⟨.scenario ⟨"", 1, [], []⟩⟩

namespace Entry

/-! ## Examples -/

/-- Read the examples of an outline from their keyword on. -/
def readExamplesFrom (ts : List Token) : Parsed Table :=
  (expect .examples ts).andThen fun _ rest =>
  (expect .colon rest).andThen fun _ rest =>
  (expect .newline rest).andThen fun _ rest => tableReader (skipTrivia rest)

theorem readExamples_eq {ts : List Token} (h : (peek ts).kind.isTrivia = false) :
    readExamples ts = readExamplesFrom ts := by
  unfold readExamples readExamplesFrom tableReader Token.isCell
  rw [skipTrivia_eq_self h]
  simp only [beq_iff_eq]

theorem reads_readExamplesFrom : Reads readExamplesFrom Grammar.examples (· ≠ .tableData) := by
  have hkeyword : Reads (expect .examples) (kind .examples) fun _ => True :=
    reads_expect (by decide)
  have hcolon : Reads (expect .colon) (kind .colon) fun _ => True := reads_expect (by decide)
  have hnewline : Reads (expect .newline) (kind .newline) fun _ => True := reads_expect (by decide)
  have htable : Grammar.table.Opens (· ≠ .tableData) (·.isTrivia = false) :=
    table_opens.mono fun _ hk => hk ▸ rfl
  have h := hkeyword.andThen (fun _ => hcolon.andThen (fun _ => hnewline.andThen
    (fun _ => reads_skipTrivia.andThen (fun _ => reads_tableReader) htable)
    fun _ _ _ _ => trivial) fun _ _ _ _ => trivial) fun _ _ _ _ => trivial
  simp only [Grammar.examples, Part.mul_assoc]
  exact h

/-! ## Scenarios and outlines -/

/-- Read an outline from its heading on, and skip what comes after it. -/
def readOutlineRound (tags : List String) (line : Nat) (ts : List Token) : Parsed Entry :=
  (readHeading ts).andThen fun text rest =>
  (Step.readBlockOf .outline rest).andThen fun steps rest =>
  (readExamplesFrom rest).andThen fun examples rest =>
    .ok (.outline ⟨⟨text, line, tags, steps⟩, examples⟩, skipTrivia rest)

theorem readOutlineRound_eq (tags : List String) (line : Nat) (ts : List Token) :
    (readOutline tags line ts).andThen (fun entry rest => .ok (entry, skipTrivia rest)) =
      readOutlineRound tags line ts := by
  unfold readOutline readOutlineRound
  rcases readHeading ts with _ | ⟨text, rest⟩
  · rfl
  · simp only [Parsed.andThen]
    rcases hsteps : Step.readBlockOf .outline rest with _ | ⟨steps, rest⟩
    · rfl
    · simp only [readExamples_eq (Step.isTrivia_of_readBlockOf hsteps)]
      rcases readExamplesFrom rest with _ | ⟨examples, rest⟩
      · rfl
      · rfl

theorem readScenario_skipTrivia (tags : List String) (line : Nat) (ts : List Token) :
    (readScenario tags line ts).andThen (fun entry rest => .ok (entry, skipTrivia rest)) =
      readScenario tags line ts := by
  unfold readScenario
  rcases readHeading ts with _ | ⟨text, rest⟩
  · rfl
  · simp only [Parsed.andThen]
    rcases hsteps : Step.readBlockOf .scenario rest with _ | ⟨steps, rest⟩
    · rfl
    · simp only [skipTrivia_eq_self (Step.isTrivia_of_readBlockOf hsteps)]

/-- Read a scenario or an outline from its keyword on, and skip what comes after it. -/
def readKeyworded (tags : List String) (ts : List Token) : Parsed Entry :=
  (take (· = .scenario) (ParseError.unexpected .scenario) ts).andThen fun t rest =>
    if (peek rest).kind = .outline then
      (take (· = .outline) (ParseError.unexpected .outline) rest).andThen fun _ rest =>
        readOutlineRound tags t.line rest
    else readScenario tags t.line rest

theorem readKeyworded_eq (tags : List String) (ts : List Token) :
    (readTagged tags ts).andThen (fun entry rest => .ok (entry, skipTrivia rest)) =
      readKeyworded tags ts := by
  unfold readTagged readKeyworded take
  by_cases hscenario : (peek ts).kind = .scenario
  · rw [if_pos hscenario, if_pos hscenario]
    by_cases houtline : (peek ts.tail).kind = .outline
    · simp only [Parsed.andThen, houtline, if_true]
      exact readOutlineRound_eq tags _ _
    · simp only [Parsed.andThen, houtline, if_false]
      exact readScenario_skipTrivia tags _ _
  · rw [if_neg hscenario, if_neg hscenario]
    rfl

theorem tableReader_of_readExamplesFrom {ts rest : List Token} {table : Table}
    (h : readExamplesFrom ts = .ok (table, rest)) :
    ∃ mid, mid <:+ ts ∧ tableReader mid = .ok (table, rest) := by
  obtain ⟨_, r₁, hkeyword, h₁⟩ := Parsed.andThen_eq_ok.1 h
  obtain ⟨_, r₂, hcolon, h₂⟩ := Parsed.andThen_eq_ok.1 h₁
  obtain ⟨_, r₃, hnewline, htable⟩ := Parsed.andThen_eq_ok.1 h₂
  have hr₁ := Parsed.suffix_of_eq_ok (rest_expect_suffix .examples ts) hkeyword
  have hr₂ := Parsed.suffix_of_eq_ok (rest_expect_suffix .colon r₁) hcolon
  have hr₃ := Parsed.suffix_of_eq_ok (rest_expect_suffix .newline r₂) hnewline
  exact ⟨skipTrivia r₃, (skipTrivia_suffix r₃).trans (hr₃.trans (hr₂.trans hr₁)), htable⟩

/-- The parts of an entry that was read. -/
theorem readKeyworded_cases {tags : List String} {ts rest : List Token} {entry : Entry}
    (h : readKeyworded tags ts = .ok (entry, rest)) :
    ∃ t r₁ r₂ title r₃ owner r₄, ts = t :: r₁ ∧ entry.line = t.line ∧ r₂ <:+ r₁ ∧
      readHeading r₂ = .ok (title, r₃) ∧ Step.readBlockOf owner r₃ = .ok (entry.steps, r₄) ∧
      (entry.examples? = none ∧ rest = r₄ ∨
        ∃ table r₅ r₆, entry.examples? = some table ∧ r₅ <:+ r₄ ∧
          tableReader r₅ = .ok (table, r₆) ∧ rest <:+ r₆) := by
  obtain ⟨t, r₁, htake, hmore⟩ := Parsed.andThen_eq_ok.1 h
  have hts := ((take_eq_ok (by decide)).1 htake).2
  split at hmore
  · obtain ⟨_, r₂, htake', hround⟩ := Parsed.andThen_eq_ok.1 hmore
    have hr₁ := ((take_eq_ok (by decide)).1 htake').2
    obtain ⟨title, r₃, hheading, hround⟩ := Parsed.andThen_eq_ok.1 hround
    obtain ⟨steps, r₄, hsteps, hround⟩ := Parsed.andThen_eq_ok.1 hround
    obtain ⟨table, r₆, hexamples, heq⟩ := Parsed.andThen_eq_ok.1 hround
    obtain ⟨r₅, hr₅, htable⟩ := tableReader_of_readExamplesFrom hexamples
    cases heq
    exact ⟨t, r₁, r₂, title, r₃, _, r₄, hts, rfl, hr₁ ▸ List.suffix_cons _ _, hheading, hsteps,
      Or.inr ⟨table, r₅, r₆, rfl, hr₅, htable, skipTrivia_suffix r₆⟩⟩
  · obtain ⟨title, r₃, hheading, hmore⟩ := Parsed.andThen_eq_ok.1 hmore
    obtain ⟨steps, r₄, hsteps, heq⟩ := Parsed.andThen_eq_ok.1 hmore
    cases heq
    exact ⟨t, r₁, r₁, title, r₃, _, rest, hts, rfl, List.suffix_rfl, hheading, hsteps,
      Or.inl ⟨rfl, rfl⟩⟩

theorem reads_readOutlineRound (tags : List String) (line : Nat) :
    Reads (readOutlineRound tags line)
      (Grammar.heading * (Grammar.steps * (Grammar.examples * Grammar.trivia.star))) EndsSteps := by
  have htrivia : Grammar.trivia.star.Opens EndsSteps (· ≠ .tableData) :=
    Part.Opens.star (Part.Opens.token fun _ hk => (EndsStep.of_isTrivia hk).1) fun _ hk => hk.1.1
  have hexamples : (Grammar.examples * Grammar.trivia.star).Opens EndsSteps EndsSteps := by
    simp only [Grammar.examples, Part.mul_assoc]
    exact Part.Opens.mul_left (Part.Opens.kind ⟨⟨by decide, by decide⟩, rfl, rfl⟩)
  have hskip : Reads (fun ts => .ok ((), skipTrivia ts)) Grammar.trivia.star EndsSteps :=
    reads_skipTrivia.mono fun _ hk => hk.2.1
  have hdone : ∀ entry : Entry,
      Reads (fun ts => .ok (entry, skipTrivia ts)) Grammar.trivia.star EndsSteps :=
    fun entry => hskip.map fun _ => entry
  have hheading : Reads readHeading Grammar.heading fun _ => True := reads_readHeading
  exact hheading.andThen (fun text => (Step.reads_readBlockOf .outline).andThen
    (fun steps => reads_readExamplesFrom.andThen (fun examples => hdone _) htrivia) hexamples)
    fun _ _ _ _ => trivial

theorem reads_readScenario (tags : List String) (line : Nat) :
    Reads (readScenario tags line) (Grammar.heading * Grammar.steps) EndsSteps := by
  have hheading : Reads readHeading Grammar.heading fun _ => True := reads_readHeading
  exact hheading.andThen (fun text => (Step.reads_readBlockOf .scenario).map
    fun steps => Entry.scenario ⟨text, line, tags, steps⟩) fun _ _ _ _ => trivial

theorem heading_opens {D : Kind → Prop} : Grammar.heading.Opens D (· = .colon) :=
  Part.Opens.mul_left (Part.Opens.mul_left (Part.Opens.kind_self _))

theorem reads_readKeyworded (tags : List String) :
    Reads (readKeyworded tags) Grammar.keyworded EndsSteps := by
  have hscenario : Reads (take (· = .scenario) (ParseError.unexpected .scenario)) (kind .scenario)
      fun _ => True := Reads.take rfl (by decide) fun _ => rfl
  have houtline : Reads (take (· = .outline) (ParseError.unexpected .outline)) (kind .outline)
      fun _ => True := Reads.take rfl (by decide) fun _ => rfl
  refine hscenario.andThen (fun t => ?_) fun _ _ _ _ => trivial
  refine Reads.ite (houtline.andThen (fun _ => reads_readOutlineRound tags t.line)
    fun _ _ _ _ => trivial) (reads_readScenario tags t.line)
    (Part.Opens.mul_left (Part.Opens.kind_self _)) ?_
  exact Part.Opens.mul_left (heading_opens.mono fun _ hk => by rw [hk]; decide)

/-! ## The loop over entries -/

/-- Read tags that start with a tag. -/
def readOpenTags (ts : List Token) : Parsed (List String) :=
  if (peek ts).kind = .tag then
    (take (· = .tag) (ParseError.unexpected .tag) ts).andThen fun t rest =>
      .ok (t.literal :: (readTags rest).1, (readTags rest).2)
  else .ok ([], ts)

theorem readOpenTags_eq {ts : List Token}
    (h : (peek ts).kind = .tag ∨ (peek ts).kind = .scenario) :
    readOpenTags ts = .ok (readTags ts) := by
  rcases ts with _ | ⟨t, ts⟩
  · rfl
  · rw [peek_cons] at h
    rcases h with h | h
    · simp [readOpenTags, take, Parsed.andThen, readTags, h, Kind.isTrivia]
    · simp [readOpenTags, readTags, h, Kind.isTrivia]

theorem reads_readOpenTags :
    Reads readOpenTags Grammar.openTags (·.isTagOrTrivia = false) := by
  have htag : Reads (take (· = .tag) (ParseError.unexpected .tag)) (kind .tag) fun _ => True :=
    Reads.take rfl (by decide) fun _ => rfl
  refine Reads.opt (htag.andThen (fun t => reads_readTags.map fun tags => t.literal :: tags)
    fun _ _ _ _ => trivial) [] (Part.Opens.mul_left (Part.Opens.kind_self _)) ?_
  rintro _ hk rfl
  cases hk

/-- Read an entry that starts with a tag or its keyword, and skip what comes after it. -/
def readRound (ts : List Token) : Parsed Entry := (readOpenTags ts).andThen readKeyworded

theorem reads_readRound : Reads readRound Grammar.entry EndsSteps := by
  refine reads_readOpenTags.andThen reads_readKeyworded (Part.Opens.mul_left ?_)
  exact Part.Opens.kind rfl

theorem entry_opens {D : Kind → Prop} :
    Grammar.entry.Opens D fun k => k = .tag ∨ k = .scenario := by
  refine Part.Opens.mul (B := (· = .scenario)) ?_ (Part.Opens.mul_left (Part.Opens.kind_self _))
  exact Part.Opens.add (Part.Opens.mul_left (Part.Opens.kind (Or.inl rfl)))
    (Part.Opens.one fun _ hk => Or.inr hk)

theorem readRound_eq {ts : List Token} (h : (peek ts).kind = .tag ∨ (peek ts).kind = .scenario) :
    readRound ts = (read ts).andThen fun entry rest => .ok (entry, skipTrivia rest) := by
  rw [readRound, readOpenTags_eq h, read, readKeyworded_eq]
  rfl

theorem readAll_repeats :
    Repeats readAll readRound List.cons [] fun k => k = .tag ∨ k = .scenario where
  more := by
    intro ts h
    rw [readRound_eq h]
    rcases ts with _ | ⟨t, ts⟩
    · rcases h with h | h <;> cases h
    · have ht : t.kind = .tag ∨ t.kind = .scenario := h
      rw [readAll, dif_pos ht]
      split
      · next failure hread => simp [Parsed.andThen, hread]
      · next entry rest hread => simp [Parsed.andThen, hread]
  done := by
    intro ts h
    rcases ts with _ | ⟨t, ts⟩
    · rw [readAll]
    · rw [readAll]
      exact dif_neg h
  rest_lt := by
    intro ts entry rest h hround
    rw [readRound_eq h] at hround
    obtain ⟨_, after, hread, heq⟩ := Parsed.andThen_eq_ok.1 hround
    obtain ⟨-, rfl⟩ := Prod.mk.inj (Except.ok.inj heq)
    rcases ts with _ | ⟨t, ts⟩
    · rcases h with h | h <;> cases h
    · have hsuffix := Parsed.suffix_of_eq_ok (rest_read_suffix ts (t := t) h) hread
      exact Nat.lt_succ_of_le ((skipTrivia_suffix after).trans hsuffix).length_le

/-- **Entries are read** up to a token that is neither a tag nor a scenario. -/
theorem reads_readAll : Reads readAll Grammar.entry.star
    fun k => EndsSteps k ∧ k ≠ .tag ∧ k ≠ .scenario := by
  refine Reads.loop readAll_repeats reads_readRound entry_opens ?_ fun k hk => ?_
  · rintro k ((rfl | rfl) | hk)
    · exact ⟨⟨by decide, by decide⟩, rfl, rfl⟩
    · exact ⟨⟨by decide, by decide⟩, rfl, rfl⟩
    · exact hk.1
  · rintro (h | h)
    · exact hk.2.1 h
    · exact hk.2.2 h

theorem isTrivia_of_readRound {ts rest : List Token} {entry : Entry}
    (h : readRound ts = .ok (entry, rest)) : (peek rest).kind.isTrivia = false := by
  obtain ⟨tags, mid, -, hround⟩ := Parsed.andThen_eq_ok.1 h
  rw [← readKeyworded_eq] at hround
  obtain ⟨_, after, -, heq⟩ := Parsed.andThen_eq_ok.1 hround
  obtain ⟨-, rfl⟩ := Prod.mk.inj (Except.ok.inj heq)
  exact isTrivia_peek_skipTrivia after

/-- Entries leave no trivia, if there are none in front of them. -/
theorem isTrivia_of_readAll {ts rest : List Token} {entries : List Entry}
    (hts : (peek ts).kind.isTrivia = false) (h : readAll ts = .ok (entries, rest)) :
    (peek rest).kind.isTrivia = false :=
  readAll_repeats.isTrivia_peek isTrivia_of_readRound hts h

end Entry

namespace Feature

/-! ## Descriptions -/

theorem isDescription_takeLine_iff {ts : List Token} : Grammar.IsDescription (takeLine ts) ↔
    (peek ts).kind.endsDescription = false ∧ (peek ts).kind.isTrivia = false := by
  rcases ts with _ | ⟨t, ts⟩
  · simp [Grammar.IsDescription, takeLine, peek, Kind.endsDescription]
  · by_cases ht : t.kind.endsLine = true
    · rw [takeLine_cons_of_endsLine ht, peek_cons]
      rcases Kind.endsLine_iff.1 ht with h | h <;>
        simp [Grammar.IsDescription, h, Kind.endsDescription, Kind.isTrivia]
    · rw [takeLine_cons (by simpa using ht), peek_cons]
      cases hk : t.kind <;>
        simp_all [Grammar.IsDescription, Kind.endsDescription, Kind.isTrivia, Kind.endsLine]

/-- Read a line of a description. -/
def readDescriptionLine (ts : List Token) : Parsed String :=
  if (peek ts).kind.endsDescription = false ∧ (peek ts).kind.isTrivia = false then
    .ok (FreeText.ofLine (takeLine ts), skipNewline (dropLine ts))
  else .error ⟨.reservedDelimiter (peek ts).line, ts⟩

theorem readDescriptionLine_eq_ok {ts rest : List Token} {text : String} :
    readDescriptionLine ts = .ok (text, rest) ↔ Grammar.IsDescription (takeLine ts) ∧
      text = FreeText.ofLine (takeLine ts) ∧ rest = skipNewline (dropLine ts) := by
  unfold readDescriptionLine
  rw [isDescription_takeLine_iff]
  split
  · next h => simp [h, eq_comm]
  · next h => simp [h]

theorem readsLine_description : ReadsLine readDescriptionLine Grammar.IsDescription where
  inhabited := ⟨[⟨.stepBody, "", 1⟩], by simp [Kind.endsLine], by simp [Grammar.IsDescription]⟩
  rest_suffix := by
    intro ts
    unfold readDescriptionLine
    split
    · exact (skipNewline_suffix _).trans (dropLine_suffix ts)
    · exact List.suffix_rfl
  rest_eq := fun h => (readDescriptionLine_eq_ok.1 h).2.2
  sound := fun _ h => (readDescriptionLine_eq_ok.1 h).1
  complete := fun h => ⟨_, _, readDescriptionLine_eq_ok.2 ⟨h, rfl, rfl⟩⟩
  ahead := by
    intro l t m a hl ht h m'
    have hends : ∀ m, (peek (t :: m)).kind.endsLine = true := fun _ => ht
    have hok := readDescriptionLine_eq_ok.1 h
    rw [takeLine_append hl (hends m)] at hok
    apply readDescriptionLine_eq_ok.2
    rw [takeLine_append hl (hends m'), dropLine_append hl (hends m')]
    exact ⟨hok.1, hok.2.1, rfl⟩
  found?_eq_none := by
    intro ts failure _ h
    unfold readDescriptionLine at h
    split at h
    · cases h
    · cases h
      rfl

/-- Skip a line end or a comment, or read a line of a description. -/
def readDescriptionRound (ts : List Token) : Parsed String :=
  if (peek ts).kind.isTrivia = true then
    (take (·.isTrivia = true) (ParseError.unexpected .newline) ts).andThen fun _ rest =>
      .ok ("", rest)
  else readDescriptionLine ts

/-- What one round of the loop over a description reads. -/
def descriptionRound : Part :=
  Grammar.trivia + Grammar.line Grammar.IsDescription * Grammar.lineEnd

theorem reads_readDescriptionRound : Reads readDescriptionRound descriptionRound fun _ => True := by
  have htake : Reads (take (·.isTrivia = true) (ParseError.unexpected .newline)) Grammar.trivia
      fun _ => True := Reads.take (k := .newline) rfl (by decide) fun _ => rfl
  refine (htake.map fun _ => "").ite readsLine_description.reads
    (Part.Opens.token fun _ hk => hk) fun ts rest h _ => ?_
  simp [(isDescription_takeLine_iff.1 (Grammar.line_mul_lineEnd_iff.1 h).1).2]

theorem descriptionRound_opens {D : Kind → Prop} :
    descriptionRound.Opens D (·.endsDescription = false) := by
  refine Part.Opens.add (Part.Opens.token fun k hk => ?_) fun ts rest h _ => ?_
  · cases k <;> simp_all [Kind.isTrivia, Kind.endsDescription]
  · exact (isDescription_takeLine_iff.1 (Grammar.line_mul_lineEnd_iff.1 h).1).1

theorem readDescription_skipNewline (ts : List Token) :
    readDescription (skipNewline ts) = readDescription ts := by
  by_cases h : (peek ts).kind = .newline
  · rcases ts with _ | ⟨t, ts⟩
    · rfl
    · have ht : t.kind = .newline := h
      rw [skipNewline_cons_of_newline ht]
      conv_rhs => rw [readDescription]
      simp [ht, Kind.endsDescription, Kind.isTrivia]
  · rw [skipNewline_of_ne_newline h]

theorem readDescription_repeats :
    Repeats (fun ts => .ok (readDescription ts)) readDescriptionRound
      (fun text lines => if text.isEmpty then lines else text :: lines) []
      (·.endsDescription = false) where
  more := by
    intro ts h
    rcases ts with _ | ⟨t, ts⟩
    · cases h
    · have ht : t.kind.endsDescription = false := h
      rw [readDescription, readDescriptionRound, peek_cons, ht]
      by_cases htrivia : t.kind.isTrivia = true
      · simp [htrivia, take, Parsed.andThen]
      · have hends : t.kind.endsLine = false := by
          cases hk : t.kind <;> simp_all [Kind.isTrivia, Kind.endsDescription, Kind.endsLine]
        simp [htrivia, readDescriptionLine, ht, takeLine_cons hends, dropLine_cons hends,
          Parsed.andThen, readDescription_skipNewline]
  done := by
    intro ts h
    rcases ts with _ | ⟨t, ts⟩
    · rw [readDescription]
    · have ht : t.kind.endsDescription = true := by simpa using h
      rw [readDescription, ht]
      rfl
  rest_lt := by
    intro ts text rest h hround
    rcases ts with _ | ⟨t, ts⟩
    · cases h
    · unfold readDescriptionRound at hround
      split at hround
      · obtain ⟨_, mid, htake, heq⟩ := Parsed.andThen_eq_ok.1 hround
        obtain ⟨-, hts⟩ := (take_eq_ok (by decide)).1 htake
        obtain ⟨-, rfl⟩ := Prod.mk.inj (Except.ok.inj heq)
        exact hts ▸ Nat.lt_succ_self _
      · next htrivia =>
        obtain ⟨hline, -, rfl⟩ := readDescriptionLine_eq_ok.1 hround
        have hends : t.kind.endsLine = false := by
          by_contra hne
          rw [takeLine_cons_of_endsLine (by simpa using hne)] at hline
          simp [Grammar.IsDescription] at hline
        rw [dropLine_cons hends]
        exact Nat.lt_succ_of_le ((skipNewline_suffix _).trans (dropLine_suffix ts)).length_le

theorem description_of_rounds {ts rest : List Token} (h : descriptionRound.star ts rest) :
    Grammar.description ts rest := by
  induction h using Relation.ReflTransGen.head_induction_on with
  | refl => exact star_nil _ rest
  | @head start next hround _ ih =>
    rcases hround with htrivia | ⟨mid, hline, hnewline | ⟨rfl, -⟩⟩
    · exact star_cons _ (Grammar.isDescription_of_trivia _ _ htrivia) ih
    · exact star_cons _ (Or.inr hline) (star_cons _ (Or.inl (Or.inl hnewline)) ih)
    · exact star_cons _ (Or.inr hline) ih

/-- In front of a token that ends it, a description is read round by round. -/
theorem rounds_of_description {ts rest : List Token} (h : Grammar.description ts rest)
    (hrest : (peek rest).kind.endsDescription = true) : descriptionRound.star ts rest := by
  induction h using Relation.ReflTransGen.head_induction_on with
  | refl => exact star_nil _ rest
  | @head start next hitem _ ih =>
    rcases hitem with (⟨t, ht, rfl⟩ | ⟨t, ht, rfl⟩) | hline
    · exact star_cons _ (Or.inl ⟨t, by rw [ht]; rfl, rfl⟩) ih
    · exact star_cons _ (Or.inl ⟨t, by rw [ht]; rfl, rfl⟩) ih
    · obtain ⟨l, -, -, hends, -⟩ := id hline
      rcases Kind.endsLine_iff.1 hends with hnewline | heof
      · -- the line end after the line is a round of its own, which joins the line
        rcases Relation.ReflTransGen.cases_head ih with rfl | ⟨after, hround, hmore⟩
        · rw [hnewline] at hrest
          cases hrest
        · rcases hround with ⟨t, ht, rfl⟩ | hline'
          · exact star_cons _ (Or.inr ⟨_, hline, Or.inl ⟨t, hnewline, rfl⟩⟩) hmore
          · have hfirst :=
              (isDescription_takeLine_iff.1 (Grammar.line_mul_lineEnd_iff.1 hline').1).2
            rw [hnewline] at hfirst
            cases hfirst
      · exact star_cons _ (Or.inr ⟨next, hline, Or.inr ⟨rfl, heof⟩⟩) ih

/-- **A description is read** up to a background, a scenario, a tag or the end of the text. -/
theorem reads_readDescription : Reads (fun ts => .ok (readDescription ts)) Grammar.description
    (·.endsDescription = true) := by
  have hloop : Reads (fun ts => .ok (readDescription ts)) descriptionRound.star
      (·.endsDescription = true) :=
    Reads.loop readDescription_repeats reads_readDescriptionRound descriptionRound_opens
      (fun _ _ => trivial) fun k hk => by simp [hk]
  exact hloop.change (fun _ _ => description_of_rounds) fun _ _ => rounds_of_description

theorem endsDescription_readDescription (ts : List Token) :
    (peek (readDescription ts).2).kind.endsDescription = true := by
  fun_induction readDescription ts with
  | case1 => rfl
  | case2 t ts h => exact h
  | case3 t ts _ _ ih => exact ih
  | case4 t ts _ _ _ _ _ hread ih =>
    rw [hread] at ih
    exact ih

theorem isTrivia_readDescription (ts : List Token) :
    (peek (readDescription ts).2).kind.isTrivia = false := by
  have hends := endsDescription_readDescription ts
  cases hk : (peek (readDescription ts).2).kind <;>
    simp_all [Kind.endsDescription, Kind.isTrivia]

/-! ## Backgrounds and features -/

theorem readBackground?_eq (ts : List Token) : readBackground? ts =
    if (peek ts).kind = .background then
      (take (· = .background) (ParseError.unexpected .background) ts).andThen fun _ rest =>
      (readHeading rest).andThen fun _ rest =>
      (Step.readBlockOf .background rest).andThen fun steps rest => .ok (some steps, rest)
    else .ok (none, ts) := by
  unfold readBackground? take
  split
  · rfl
  · rfl

theorem reads_readBackground? : Reads readBackground? Grammar.background.opt
    fun k => EndsSteps k ∧ k ≠ .background := by
  have hkeyword : Reads (take (· = .background) (ParseError.unexpected .background))
      (kind .background) fun _ => True := Reads.take rfl (by decide) fun _ => rfl
  have hheading : Reads readHeading Grammar.heading fun _ => True := reads_readHeading
  have h := (hkeyword.andThen (fun _ => hheading.andThen (fun _ =>
    (Step.reads_readBlockOf .background).map some) fun _ _ _ _ => trivial)
    fun _ _ _ _ => trivial).mono fun k (hk : EndsSteps k ∧ k ≠ .background) => hk.1
  rw [funext readBackground?_eq, Grammar.background, Part.mul_assoc]
  exact h.opt none (Part.Opens.mul_left (Part.Opens.kind_self _)) fun _ hk => hk.2

/-- The parts of a background, if there is one. -/
theorem readBackground?_cases {ts rest : List Token} {background : Option (List Step)}
    (h : readBackground? ts = .ok (background, rest)) :
    background = none ∧ rest = ts ∨ ∃ title mid steps, background = some steps ∧
      readHeading ts.tail = .ok (title, mid) ∧
      Step.readBlockOf .background mid = .ok (steps, rest) := by
  unfold readBackground? at h
  split at h
  · obtain ⟨title, mid, hheading, hmore⟩ := Parsed.andThen_eq_ok.1 h
    obtain ⟨steps, _, hsteps, heq⟩ := Parsed.andThen_eq_ok.1 hmore
    cases heq
    exact Or.inr ⟨title, mid, steps, rfl, hheading, hsteps⟩
  · cases h
    exact Or.inl ⟨rfl, rfl⟩

/-- Reading a background leaves no trivia, if there are none in front of it. -/
theorem isTrivia_of_readBackground? {ts rest : List Token} {background : Option (List Step)}
    (hts : (peek ts).kind.isTrivia = false) (h : readBackground? ts = .ok (background, rest)) :
    (peek rest).kind.isTrivia = false := by
  rcases readBackground?_cases h with ⟨-, rfl⟩ | ⟨_, _, _, -, -, hsteps⟩
  · exact hts
  · exact Step.isTrivia_of_readBlockOf hsteps

/-- Read what follows the keyword of a feature. -/
def readFrom (tags : List String) (keyword : Token) (ts : List Token) : Parsed Feature :=
  (readHeading ts).andThen fun title rest =>
  Parsed.andThen (.ok (readDescription rest)) fun description rest =>
  (readBackground? rest).andThen fun background rest =>
  (Entry.readAll rest).andThen fun scenarios rest =>
    .ok (⟨title, keyword.line, tags, description, background, scenarios⟩, rest)

theorem read_eq (ts : List Token) : read ts =
    Parsed.andThen (.ok (readTags ts)) fun tags rest =>
    (take (· = .feature) (ParseError.unexpected .feature) rest).andThen fun keyword rest =>
      readFrom tags keyword rest := by
  unfold read take
  simp only [Parsed.andThen]
  by_cases hk : (peek (readTags ts).2).kind = .feature
  · simp only [hk, if_true, readFrom]
    rcases readHeading (readTags ts).2.tail with _ | ⟨title, rest⟩
    · rfl
    · simp only [Parsed.andThen]
      rcases hback : readBackground? (readDescription rest).2 with _ | ⟨background, rest⟩
      · rfl
      · have htrivia := isTrivia_of_readBackground? (isTrivia_readDescription _) hback
        simp only [skipTrivia_eq_self htrivia]
  · simp only [hk, if_false]
    rfl

/-- **A feature is read up to the end of the text.** -/
theorem reads_read : Reads read Grammar.feature (· = .eof) := by
  have hkeyword : Reads (take (· = .feature) (ParseError.unexpected .feature)) (kind .feature)
      fun _ => True := Reads.take rfl (by decide) fun _ => rfl
  have hheading : Reads readHeading Grammar.heading fun _ => True := reads_readHeading
  have hentries : Reads Entry.readAll Grammar.entry.star (· = .eof) :=
    Entry.reads_readAll.mono fun _ hk =>
      hk ▸ ⟨⟨⟨by decide, by decide⟩, rfl, rfl⟩, by decide, by decide⟩
  have hopen : Grammar.entry.star.Opens (· = .eof)
      fun k => k = .tag ∨ k = .scenario ∨ k = .eof :=
    Part.Opens.star (Entry.entry_opens.mono fun k hk => by tauto) fun k hk => Or.inr (Or.inr hk)
  have hback : Grammar.entry.star.Opens (· = .eof) fun k => EndsSteps k ∧ k ≠ .background := by
    refine hopen.mono ?_
    rintro k (rfl | rfl | rfl) <;> exact ⟨⟨⟨by decide, by decide⟩, rfl, rfl⟩, by decide⟩
  have hdescription : (Grammar.background.opt * Grammar.entry.star).Opens (· = .eof)
      (·.endsDescription = true) := by
    refine Part.Opens.mul (B := (·.endsDescription = true)) (Part.Opens.add ?_ (Part.Opens.one ?_))
      (hopen.mono ?_)
    · exact Part.Opens.mul_left (Part.Opens.mul_left (Part.Opens.kind rfl))
    · exact fun _ hk => hk
    · rintro k (rfl | rfl | rfl) <;> rfl
  rw [funext read_eq, Grammar.feature_eq]
  refine reads_readTags.andThen (fun tags => hkeyword.andThen (fun keyword => ?_)
    fun _ _ _ _ => trivial) (Part.Opens.mul_left (Part.Opens.kind rfl))
  exact hheading.andThen (fun title => reads_readDescription.andThen (fun description =>
    reads_readBackground?.andThen (fun background => hentries.map fun scenarios =>
      (⟨title, keyword.line, tags, description, background, scenarios⟩ : Feature)) hback)
      hdescription) fun _ _ _ _ => trivial

/-- The parts of a feature that was read. -/
theorem read_cases {ts rest : List Token} {feature : Feature} (h : read ts = .ok (feature, rest)) :
    ∃ keyword r₁ title r₂ r₃, (readTags ts).2 = keyword :: r₁ ∧ feature.line = keyword.line ∧
      readHeading r₁ = .ok (title, r₂) ∧
      readBackground? (readDescription r₂).2 = .ok (feature.background, r₃) ∧
      Entry.readAll r₃ = .ok (feature.scenarios, rest) := by
  rw [read_eq, Parsed.ok_andThen] at h
  obtain ⟨keyword, r₁, htake, hfrom⟩ := Parsed.andThen_eq_ok.1 h
  obtain ⟨title, r₂, hheading, hmore⟩ := Parsed.andThen_eq_ok.1 hfrom
  rw [Parsed.ok_andThen] at hmore
  obtain ⟨background, r₃, hback, hscenarios⟩ := Parsed.andThen_eq_ok.1 hmore
  obtain ⟨scenarios, _, hentries, heq⟩ := Parsed.andThen_eq_ok.1 hscenarios
  obtain ⟨rfl, rfl⟩ := Prod.mk.inj (Except.ok.inj heq)
  exact ⟨keyword, r₁, title, r₂, r₃, ((take_eq_ok (by decide)).1 htake).2, rfl, hheading, hback,
    hentries⟩

/-- A feature leaves no trivia. -/
theorem isTrivia_of_read {ts rest : List Token} {feature : Feature}
    (h : read ts = .ok (feature, rest)) : (peek rest).kind.isTrivia = false := by
  obtain ⟨_, _, _, r₂, _, -, -, -, hback, hentries⟩ := read_cases h
  exact Entry.isTrivia_of_readAll
    (isTrivia_of_readBackground? (isTrivia_readDescription r₂) hback) hentries

end Feature

end FeatureDoc
