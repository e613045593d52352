import FeatureDoc.Proofs.Grammar.Table
import FeatureDoc.Proofs.Grammar.Trivia

/-!
# Reading steps

The readers of headings and steps are instances of the laws for readers: each reads its rule of the
grammar, provided that a token comes next that the rule leaves to the others.

* `reads_readHeading` is the law for headings, after which anything may come.
* `Step.reads_read` is the law for what follows the keyword of a step, `Step.readRound` one round of
  the loop over steps: a step and the trivia after it.
* `Step.reads_readBlockOf` is the law for one or more steps, after which a token in `EndsSteps` has
  to come. `Step.isTrivia_of_readBlockOf` says that steps leave no trivia.
-/

namespace FeatureDoc

open FeatureDoc.Part

instance : Inhabited Table := ⟨.empty⟩

instance : Inhabited StepText := ⟨.empty⟩

instance : Inhabited Step := ⟨⟨default, "", [], none, 1⟩⟩

theorem expect_eq (k : Kind) : expect k = fun ts =>
    (take (· = k) (ParseError.unexpected k) ts).andThen fun _ rest => .ok ((), rest) := by
  funext ts
  unfold expect take refuse
  split
  · rfl
  · rfl

theorem reads_expect {k : Kind} (hk : k ≠ .eof) {next : Kind → Prop} :
    Reads (expect k) (kind k) next := by
  have htake : Reads (take (· = k) (ParseError.unexpected k)) (kind k) next :=
    Reads.take rfl (fun h => hk h.symm) fun _ => rfl
  rw [expect_eq]
  exact htake.map fun _ => ()

theorem reads_readHeading {next : Kind → Prop} : Reads readHeading Grammar.heading next := by
  rw [Grammar.heading, Part.mul_assoc, funext readHeading_eq]
  have hcolon : Reads (expect .colon) (kind .colon) fun _ => True := reads_expect (by decide)
  exact hcolon.andThen (fun _ => readsLine_title.reads) fun _ _ _ _ => trivial

/-! ## Steps -/

/-- What may come after a step line with what belongs to it. -/
def EndsStep (k : Kind) : Prop := k ≠ .tableData ∧ k ≠ .docString

/-- What may come after steps. -/
def EndsSteps (k : Kind) : Prop := EndsStep k ∧ k.isTrivia = false ∧ k.isStepKeyword = false

theorem EndsStep.of_isTrivia {k : Kind} (h : k.isTrivia = true) : EndsStep k := by
  cases k <;> simp_all [Kind.isTrivia, EndsStep]

theorem EndsStep.of_isStepKeyword {k : Kind} (h : k.isStepKeyword = true) :
    EndsStep k ∧ k.isTrivia = false := by
  cases k <;> simp_all [Kind.isStepKeyword, Kind.stepKeyword?, Kind.isTrivia, EndsStep]

theorem table_opens {D : Kind → Prop} : Grammar.table.Opens D (· = .tableData) := by
  rintro ts rest ⟨n, mid, hrow, -⟩ -
  exact row_opens n (D := fun _ => True) ts mid hrow trivial

namespace Step

theorem readTable?_eq (ts : List Token) : readTable? ts =
    if (peek ts).kind = .tableData then
      (tableReader ts).andThen fun table rest => .ok (some table, rest)
    else .ok (none, ts) := by
  unfold readTable? tableReader Token.isCell
  by_cases h : (peek ts).kind = .tableData
  · simp [h]
  · simp [h]

theorem readTable?_cases {ts rest : List Token} {table : Option Table}
    (h : readTable? ts = .ok (table, rest)) :
    table = none ∧ rest = ts ∨ ∃ t, table = some t ∧ tableReader ts = .ok (t, rest) := by
  rw [readTable?_eq] at h
  split at h
  · obtain ⟨t, _, htable, heq⟩ := Parsed.andThen_eq_ok.1 h
    obtain ⟨rfl, rfl⟩ := Prod.mk.inj (Except.ok.inj heq)
    exact Or.inr ⟨t, rfl, htable⟩
  · obtain ⟨rfl, rfl⟩ := Prod.mk.inj (Except.ok.inj h)
    exact Or.inl ⟨rfl, rfl⟩

theorem reads_readTable? : Reads readTable? Grammar.table.opt (· ≠ .tableData) := by
  rw [funext readTable?_eq]
  exact (reads_tableReader.map some).opt none table_opens fun _ hk => hk

/-- The step that is made of its parts. -/
def ofParts (keyword : Token) (table : Option Table) (body : StepText) : Step :=
  ⟨keyword, String.ofList body.text, body.data, table, keyword.line⟩

/-- Finish a step with the block of text below it, if there is one. -/
def finish (keyword : Token) (body : StepText) (table : Option Table) (ts : List Token) :
    Parsed Step :=
  if (peek ts).kind = .docString then
    (take (· = .docString) (ParseError.unexpected .docString) ts).andThen fun t rest =>
      .ok (ofParts keyword table (body.putBlock t.literal), rest)
  else .ok (ofParts keyword table body, ts)

theorem finish_eq (keyword : Token) (body : StepText) (table : Option Table) (ts : List Token) :
    .ok (ofParts keyword table (readBlock body ts).1, (readBlock body ts).2) =
      finish keyword body table ts := by
  unfold finish readBlock take
  split
  · rfl
  · rfl

theorem reads_finish (keyword : Token) (body : StepText) (table : Option Table) :
    Reads (finish keyword body table) (kind .docString).opt EndsStep := by
  have htake : Reads (take (· = .docString) (ParseError.unexpected .docString)) (kind .docString)
      EndsStep := Reads.take rfl (by decide) fun _ => rfl
  exact (htake.map _).opt _ (Part.Opens.kind_self _) fun _ hk => hk.2

theorem read_eq (keyword : Token) (ts : List Token) : read keyword ts =
    ((StepText.empty.readLine ts).andThen fun body rest => .ok (body, skipNewline rest)).andThen
      fun body rest => (readTable? rest).andThen fun table rest =>
        finish keyword body.trim table rest := by
  unfold read
  rcases StepText.empty.readLine ts with _ | ⟨body, rest⟩
  · rfl
  · simp only [Parsed.andThen]
    rcases readTable? (skipNewline rest) with _ | ⟨table, rest⟩
    · rfl
    · exact finish_eq keyword body.trim table rest

/-- The parts of a step that was read. -/
theorem read_cases {keyword : Token} {ts rest : List Token} {step : Step}
    (h : read keyword ts = .ok (step, rest)) :
    ∃ body r₁ table r₂, StepText.empty.readLine ts = .ok (body, r₁) ∧
      readTable? (skipNewline r₁) = .ok (table, r₂) ∧
      step = ofParts keyword table (readBlock body.trim r₂).1 ∧
      rest = (readBlock body.trim r₂).2 := by
  obtain ⟨body, r₁, hline, hmore⟩ := Parsed.andThen_eq_ok.1 h
  obtain ⟨table, r₂, htable, heq⟩ := Parsed.andThen_eq_ok.1 hmore
  refine ⟨body, r₁, table, r₂, hline, htable, ?_⟩
  generalize readBlock body.trim r₂ = block at heq ⊢
  obtain ⟨body', r₃⟩ := block
  cases heq
  exact ⟨rfl, rfl⟩

theorem reads_read (keyword : Token) :
    Reads (read keyword)
      (Grammar.line Admissible * Grammar.lineEnd * (Grammar.table.opt * (kind .docString).opt))
      EndsStep := by
  rw [funext (read_eq keyword)]
  have hline : Reads (fun ts => (StepText.empty.readLine ts).andThen fun body rest =>
      .ok (body, skipNewline rest)) (Grammar.line Admissible * Grammar.lineEnd) fun _ => True :=
    readsLine_step.reads
  have hdoc : (kind .docString).opt.Opens EndsStep (· ≠ .tableData) :=
    Part.Opens.add (Part.Opens.kind (by decide)) (Part.Opens.one fun _ hk => hk.1)
  exact hline.andThen (fun body => reads_readTable?.andThen
    (fun table => reads_finish keyword body.trim table) hdoc) fun _ _ _ _ => trivial

/-! A step with the trivia after it is one round of the loop over steps. -/

/-- Read a step from its keyword on, and skip what comes after it. -/
def readRound (error : Token → ParseError) (ts : List Token) : Parsed Step :=
  (take (·.isStepKeyword = true) error ts).andThen fun keyword rest =>
  (read keyword rest).andThen fun step rest => .ok (step, skipTrivia rest)

theorem step_opens {D : Kind → Prop} :
    (Grammar.step * Grammar.trivia.star).Opens D (·.isStepKeyword = true) := by
  simp only [Grammar.step, Part.mul_assoc]
  exact Part.Opens.mul_left (Part.Opens.token fun _ h => h)

theorem reads_readRound {error : Token → ParseError}
    (herror : ∀ t, (error t).found? = some (t.kind, t.line)) :
    Reads (readRound error) (Grammar.step * Grammar.trivia.star)
      fun k => EndsStep k ∧ k.isTrivia = false := by
  have htake : Reads (take (·.isStepKeyword = true) error) (token (·.isStepKeyword = true))
      fun _ => True := Reads.take (k := .step .given) rfl (by decide) herror
  have htrivia : Grammar.trivia.star.Opens (fun k => EndsStep k ∧ k.isTrivia = false) EndsStep :=
    Part.Opens.star (Part.Opens.token fun _ => EndsStep.of_isTrivia) fun _ hk => hk.1
  have h := htake.andThen (fun keyword => (reads_read keyword).andThen
    (fun step => (reads_skipTrivia.mono fun _ hk => hk.2).map fun _ => step) htrivia)
    fun _ _ _ _ => trivial
  simp only [Grammar.step, Part.mul_assoc] at h ⊢
  exact h

/-- The parts of a round. -/
theorem readRound_cases {error : Token → ParseError} {ts rest : List Token} {step : Step}
    (h : readRound error ts = .ok (step, rest)) :
    ∃ keyword mid after, ts = keyword :: mid ∧ keyword.kind.isStepKeyword = true ∧
      read keyword mid = .ok (step, after) ∧ rest = skipTrivia after := by
  obtain ⟨keyword, mid, htake, hmore⟩ := Parsed.andThen_eq_ok.1 h
  obtain ⟨hkeyword, hts⟩ := (take_eq_ok (by decide)).1 htake
  obtain ⟨step', after, hread, heq⟩ := Parsed.andThen_eq_ok.1 hmore
  cases heq
  exact ⟨keyword, mid, after, hts, hkeyword, hread, rfl⟩

theorem readAll_repeats (error : Token → ParseError) :
    Repeats readAll (readRound error) List.cons [] (·.isStepKeyword = true) where
  more := by
    intro ts h
    rcases ts with _ | ⟨t, ts⟩
    · cases h
    · have ht : t.kind.isStepKeyword = true := h
      rw [readAll, if_pos ht, readRound, take, if_pos h]
      split
      · next failure hread =>
        simp [Parsed.andThen, hread]
      · next step rest hread =>
        simp [Parsed.andThen, hread]
  done := by
    intro ts h
    rcases ts with _ | ⟨t, ts⟩
    · rw [readAll]
    · rw [readAll]
      exact if_neg h
  rest_lt := by
    intro ts step rest h hround
    obtain ⟨keyword, mid, after, rfl, -, hread, rfl⟩ := readRound_cases hround
    have hsuffix := Parsed.suffix_of_eq_ok (rest_read_suffix keyword mid) hread
    exact Nat.lt_succ_of_le ((skipTrivia_suffix after).trans hsuffix).length_le

theorem reads_readAll :
    Reads readAll (Grammar.step * Grammar.trivia.star).star EndsSteps := by
  refine Reads.loop (readAll_repeats (ParseError.unexpected .eof)) (reads_readRound fun _ => rfl)
    step_opens (fun k hk => ?_) fun k hk => by simp [hk.2.2]
  rcases hk with hk | hk
  · exact EndsStep.of_isStepKeyword hk
  · exact ⟨hk.1, hk.2.1⟩

theorem readBlockOf_eq (owner : StepOwner) (ts : List Token) :
    readBlockOf owner ts =
      (readRound (fun t => .noSteps owner t.kind t.line) (skipTrivia ts)).andThen fun step rest =>
        (readAll rest).andThen fun steps rest => .ok (step :: steps, rest) := by
  unfold readBlockOf
  dsimp only
  split
  · next h => exact (readAll_repeats _).more h
  · next h =>
    rw [readRound, take, if_neg h]
    rfl

/-- The parts of one or more steps. -/
theorem readBlockOf_cases {owner : StepOwner} {ts rest : List Token} {steps : List Step}
    (h : readBlockOf owner ts = .ok (steps, rest)) :
    ∃ error step mid steps', readRound error (skipTrivia ts) = .ok (step, mid) ∧
      readAll mid = .ok (steps', rest) ∧ steps = step :: steps' := by
  rw [readBlockOf_eq] at h
  obtain ⟨step, mid, hround, hmore⟩ := Parsed.andThen_eq_ok.1 h
  obtain ⟨steps', _, hall, heq⟩ := Parsed.andThen_eq_ok.1 hmore
  cases heq
  exact ⟨_, step, mid, steps', hround, hall, rfl⟩

/-- **Steps are read** up to a token that is neither a step keyword nor part of a step. -/
theorem reads_readBlockOf (owner : StepOwner) :
    Reads (readBlockOf owner) Grammar.steps EndsSteps := by
  have hround : Reads (readRound fun t => .noSteps owner t.kind t.line)
      (Grammar.step * Grammar.trivia.star) fun k => EndsStep k ∧ k.isTrivia = false :=
    reads_readRound fun _ => rfl
  have hstar : (Grammar.step * Grammar.trivia.star).star.Opens EndsSteps
      fun k => EndsStep k ∧ k.isTrivia = false :=
    Part.Opens.star (step_opens.mono fun _ => EndsStep.of_isStepKeyword) fun _ hk => ⟨hk.1, hk.2.1⟩
  have hplus : (Grammar.step * Grammar.trivia.star).plus.Opens EndsSteps (·.isTrivia = false) :=
    Part.Opens.mul_left (step_opens.mono fun _ hk => (EndsStep.of_isStepKeyword hk).2)
  rw [funext (readBlockOf_eq owner)]
  exact reads_skipTrivia.andThen (fun _ => hround.andThen
    (fun step => reads_readAll.map fun steps => step :: steps) hstar) hplus

end Step

/-- A loop whose rounds leave no trivia leaves none. -/
theorem Repeats.isTrivia_peek {β γ : Type} {L : List Token → Parsed γ} {R : List Token → Parsed β}
    {f : β → γ → γ} {z : γ} {C : Kind → Prop} (h : Repeats L R f z C)
    (hR : ∀ {ts b rest}, R ts = .ok (b, rest) → (peek rest).kind.isTrivia = false)
    {ts rest : List Token} {c : γ} (hts : (peek ts).kind.isTrivia = false)
    (hL : L ts = .ok (c, rest)) : (peek rest).kind.isTrivia = false := by
  induction ts using h.induction generalizing c with
  | step ts ih =>
    rcases h.eq_ok hL with ⟨-, -, rfl⟩ | ⟨b, c', mid, hk, hb, hmid, -⟩
    · exact hts
    · exact ih b mid hk hb (hR hb) hmid

namespace Step

theorem isTrivia_of_readRound {error : Token → ParseError} {ts rest : List Token} {step : Step}
    (h : readRound error ts = .ok (step, rest)) : (peek rest).kind.isTrivia = false := by
  obtain ⟨_, _, after, -, -, -, rfl⟩ := readRound_cases h
  exact isTrivia_peek_skipTrivia after

/-- Steps leave no trivia. -/
theorem isTrivia_of_readBlockOf {owner : StepOwner} {ts rest : List Token} {steps : List Step}
    (h : readBlockOf owner ts = .ok (steps, rest)) : (peek rest).kind.isTrivia = false := by
  obtain ⟨_, _, _, _, hround, hall, -⟩ := readBlockOf_cases h
  exact (readAll_repeats (ParseError.unexpected .eof)).isTrivia_peek isTrivia_of_readRound
    (isTrivia_of_readRound hround) hall

end Step

end FeatureDoc
