import FeatureDoc.Feature.FreeText
import FeatureDoc.Step.Read

/-!
# Reading a feature

A feature is a heading, lines of description, an optional background, and scenarios and outlines.
A heading is a keyword, a colon and a line of free text. Reading stops at the first thing that
fits nowhere.
-/

namespace FeatureDoc

/-- Read tags, which may stand on several lines. -/
def readTags : List Token → List String × List Token
  | [] => ([], [])
  | t :: ts =>
    if t.kind.isTrivia then readTags ts
    else if t.kind = .tag then
      let (tags, rest) := readTags ts
      (t.literal :: tags, rest)
    else ([], t :: ts)

/-- Read the colon and the free text of a heading, and the end of its line. -/
def readHeading (ts : List Token) : Parsed String :=
  (expect .colon ts).andThen fun _ rest =>
  (lineEnd (dropLine rest)).andThen fun _ after =>
    .ok (FreeText.ofLine (takeLine rest), after)

namespace Entry

/-- Read the heading and the table of an outline's examples. -/
def readExamples (ts : List Token) : Parsed Table :=
  (expect .examples (skipTrivia ts)).andThen fun _ rest =>
  (expect .colon rest).andThen fun _ rest =>
  (expect .newline rest).andThen fun _ rest =>
    if (peek (skipTrivia rest)).isCell then Table.read (skipTrivia rest)
    else refuse .tableData (skipTrivia rest)

/-- Read a scenario from its heading on. -/
def readScenario (tags : List String) (line : Nat) (ts : List Token) : Parsed Entry :=
  (readHeading ts).andThen fun text rest =>
  (Step.readBlockOf .scenario rest).andThen fun steps rest =>
    .ok (.scenario ⟨text, line, tags, steps⟩, rest)

/-- Read an outline from its heading on. -/
def readOutline (tags : List String) (line : Nat) (ts : List Token) : Parsed Entry :=
  (readHeading ts).andThen fun text rest =>
  (Step.readBlockOf .outline rest).andThen fun steps rest =>
  (readExamples rest).andThen fun examples rest =>
    .ok (.outline ⟨⟨text, line, tags, steps⟩, examples⟩, rest)

/-- Read a scenario or an outline from its keyword on. -/
def readTagged (tags : List String) (ts : List Token) : Parsed Entry :=
  if (peek ts).kind = .scenario then
    if (peek ts.tail).kind = .outline then readOutline tags (peek ts).line ts.tail.tail
    else readScenario tags (peek ts).line ts.tail
  else refuse .scenario ts

/-- Read a scenario or an outline with its tags. -/
def read (ts : List Token) : Parsed Entry := readTagged (readTags ts).1 (readTags ts).2

end Entry

/-! ## What is left -/

theorem readTags_suffix (ts : List Token) : (readTags ts).2 <:+ ts := by
  induction ts with
  | nil => exact List.suffix_rfl
  | cons t ts ih =>
    unfold readTags
    split
    · exact ih.trans (List.suffix_cons t ts)
    · split
      · exact ih.trans (List.suffix_cons t ts)
      · exact List.suffix_rfl

theorem rest_readHeading_suffix (ts : List Token) : (readHeading ts).rest <:+ ts :=
  Parsed.rest_andThen_suffix (rest_expect_suffix _ ts) fun _ rest =>
    Parsed.rest_andThen_suffix ((rest_lineEnd_suffix _).trans (dropLine_suffix rest))
      fun _ _ => List.suffix_rfl

namespace Entry

theorem rest_readExamples_suffix (ts : List Token) : (readExamples ts).rest <:+ ts := by
  refine Parsed.rest_andThen_suffix ((rest_expect_suffix _ _).trans (skipTrivia_suffix ts))
    fun _ r₁ => Parsed.rest_andThen_suffix (rest_expect_suffix _ r₁)
    fun _ r₂ => Parsed.rest_andThen_suffix (rest_expect_suffix _ r₂) fun _ r₃ => ?_
  split
  · exact (Table.rest_read_suffix _).trans (skipTrivia_suffix r₃)
  · exact skipTrivia_suffix r₃

theorem rest_readScenario_suffix (tags : List String) (line : Nat) (ts : List Token) :
    (readScenario tags line ts).rest <:+ ts :=
  Parsed.rest_andThen_suffix (rest_readHeading_suffix ts) fun _ r₁ =>
    Parsed.rest_andThen_suffix (Step.rest_readBlockOf_suffix _ r₁) fun _ _ => List.suffix_rfl

theorem rest_readOutline_suffix (tags : List String) (line : Nat) (ts : List Token) :
    (readOutline tags line ts).rest <:+ ts :=
  Parsed.rest_andThen_suffix (rest_readHeading_suffix ts) fun _ r₁ =>
    Parsed.rest_andThen_suffix (Step.rest_readBlockOf_suffix _ r₁) fun _ r₂ =>
      Parsed.rest_andThen_suffix (rest_readExamples_suffix r₂) fun _ _ => List.suffix_rfl

theorem rest_readTagged_suffix_tail (tags : List String) {ts : List Token}
    (h : (peek ts).kind = .scenario) : (readTagged tags ts).rest <:+ ts.tail := by
  unfold readTagged
  rw [if_pos h]
  split
  · exact (rest_readOutline_suffix _ _ _).trans (List.tail_suffix _)
  · exact rest_readScenario_suffix _ _ _

theorem rest_readTagged_suffix (tags : List String) (ts : List Token) :
    (readTagged tags ts).rest <:+ ts := by
  by_cases h : (peek ts).kind = .scenario
  · exact (rest_readTagged_suffix_tail tags h).trans (List.tail_suffix ts)
  · unfold readTagged
    rw [if_neg h]
    exact List.suffix_rfl

/-- Reading an entry that starts with a tag or a keyword consumes that token. -/
theorem rest_read_suffix {t : Token} (ts : List Token) (h : t.kind = .tag ∨ t.kind = .scenario) :
    (read (t :: ts)).rest <:+ ts := by
  rcases h with h | h
  · have htags : (readTags (t :: ts)).2 = (readTags ts).2 := by simp [readTags, h, Kind.isTrivia]
    unfold read
    rw [htags]
    exact (rest_readTagged_suffix _ _).trans (readTags_suffix ts)
  · have htags : readTags (t :: ts) = ([], t :: ts) := by simp [readTags, h, Kind.isTrivia]
    unfold read
    rw [htags]
    exact rest_readTagged_suffix_tail [] h

/-- Read scenarios and outlines as long as a tag or a scenario comes next. -/
def readAll : List Token → Parsed (List Entry)
  | [] => .ok ([], [])
  | t :: ts =>
    if _hk : t.kind = .tag ∨ t.kind = .scenario then
      match _h : read (t :: ts) with
      | .error failure => .error failure
      | .ok (entry, rest) =>
        (readAll (skipTrivia rest)).andThen fun entries rest => .ok (entry :: entries, rest)
    else .ok ([], t :: ts)
termination_by ts => ts.length
decreasing_by
  have := rest_read_suffix ts _hk
  rw [_h] at this
  exact Nat.lt_succ_of_le ((skipTrivia_suffix rest).trans this).length_le

end Entry

namespace Feature

/-- Read lines of free text up to the first background, scenario or tag. -/
def readDescription : List Token → List String × List Token
  | [] => ([], [])
  | t :: ts =>
    if t.kind.endsDescription then ([], t :: ts)
    else if t.kind.isTrivia then readDescription ts
    else
      let text := FreeText.ofLine (t :: takeLine ts)
      let (lines, rest) := readDescription (dropLine ts)
      (if text.isEmpty then lines else text :: lines, rest)
termination_by ts => ts.length
decreasing_by
  · exact Nat.lt_succ_self _
  · exact Nat.lt_succ_of_le (dropLine_suffix ts).length_le

/-- Read the background, if there is one. The text of its heading is not kept. -/
def readBackground? (ts : List Token) : Parsed (Option (List Step)) :=
  if (peek ts).kind = .background then
    (readHeading ts.tail).andThen fun _ rest =>
    (Step.readBlockOf .background rest).andThen fun steps rest =>
      .ok (some steps, rest)
  else .ok (none, ts)

/-- Read a feature with its tags. -/
def read (ts : List Token) : Parsed Feature :=
  let (tags, rest) := readTags ts
  let keyword := peek rest
  if keyword.kind = .feature then
    (readHeading rest.tail).andThen fun title rest =>
    let (description, rest) := readDescription rest
    (readBackground? rest).andThen fun background rest =>
    (Entry.readAll (skipTrivia rest)).andThen fun scenarios rest =>
      .ok (⟨title, keyword.line, tags, description, background, scenarios⟩, rest)
  else refuse .feature rest

end Feature

end FeatureDoc
