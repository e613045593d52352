import FeatureDoc.Proofs.Pull.Step

/-!
# Features on demand

The readers of tags, descriptions, entries and features, asking for their tokens one by one, each
beside the reader of lists that it follows. `follows_document` is where they come together: a
document is read in the same way whether its tokens are asked for or listed.
-/

namespace FeatureDoc

/-- Collect tags that are in view, and skip what comes after them. -/
def Loop.tags : Loop (List String) where
  goesOn k := k == .tag
  round tags := do
    let t ← Pull.advance
    Pull.skipTrivia
    return tags ++ [t.literal]

/-- Read tags, which may stand on several lines. -/
def Pull.tags : Pull (List String) := do
  Pull.skipTrivia
  Loop.tags.run []

/-- Collect lines of free text up to the first background, scenario or tag. -/
def Loop.description : Loop (List String) where
  goesOn k := !k.endsDescription
  round lines := do
    if (← Pull.peek).kind.isTrivia then
      Pull.skip
      return lines
    else
      let text ← Pull.freeText
      return if text.isEmpty then lines else lines ++ [text]

/-- Read the heading and the table of an outline's examples. -/
def Pull.examples (exits : Exits) : Pull Table := do
  Pull.skipTrivia
  Pull.expect .examples
  Pull.expect .colon
  Pull.expect .newline
  Pull.skipTrivia
  if (← Pull.peek).isCell then Pull.table exits else Pull.unexpected .tableData

/-- Read a scenario from its heading on. -/
def Pull.scenario (exits : Exits) (tags : List String) (line : Nat) : Pull Entry := do
  let text ← Pull.heading exits
  let steps ← Pull.stepBlock exits .scenario
  return .scenario ⟨text, line, tags, steps⟩

/-- Read an outline from its heading on. -/
def Pull.outline (exits : Exits) (tags : List String) (line : Nat) : Pull Entry := do
  let text ← Pull.heading exits
  let steps ← Pull.stepBlock exits .outline
  let examples ← Pull.examples exits
  return .outline ⟨⟨text, line, tags, steps⟩, examples⟩

/-- Read what follows the keyword of a scenario or an outline. -/
def Pull.entryBody (exits : Exits) (tags : List String) (line : Nat) : Pull Entry := do
  if (← Pull.peek).kind = .outline then
    Pull.skip
    Pull.outline exits tags line
  else Pull.scenario exits tags line

/-- Read a scenario or an outline from its keyword on. -/
def Pull.tagged (exits : Exits) (tags : List String) : Pull Entry := do
  if (← Pull.peek).kind = .scenario then
    let t ← Pull.advance
    Pull.entryBody exits tags t.line
  else Pull.unexpected .scenario

/-- Read a scenario or an outline with its tags. -/
def Pull.entry (exits : Exits) : Pull Entry := do
  let tags ← Pull.tags
  Pull.tagged exits tags

/-- Collect scenarios and outlines as long as a tag or a scenario comes next. -/
def Loop.entries (exits : Exits) : Loop (List Entry) where
  goesOn k := k = .tag ∨ k = .scenario
  round entries := do
    let entry ← Pull.entry exits
    Pull.skipTrivia
    return entries ++ [entry]

/-- Read the background, if there is one. -/
def Pull.background? (exits : Exits) : Pull (Option (List Step)) := do
  if (← Pull.peek).kind = .background then
    Pull.skip
    let _ ← Pull.heading exits
    some <$> Pull.stepBlock exits .background
  else return none

/-- Read a feature from its keyword on. -/
def Pull.featureBody (exits : Exits) (tags : List String) : Pull Feature := do
  let keyword ← Pull.advance
  let title ← Pull.heading exits
  let description ← Loop.description.run []
  let background ← Pull.background? exits
  Pull.skipTrivia
  let scenarios ← (Loop.entries exits).run []
  return ⟨title, keyword.line, tags, description, background, scenarios⟩

/-- Read a feature with its tags. -/
def Pull.feature (exits : Exits) : Pull Feature := do
  let tags ← Pull.tags
  if (← Pull.peek).kind = .feature then Pull.featureBody exits tags
  else Pull.unexpected .feature

/-- Read a feature and nothing after it. -/
def Pull.wholeFeature (exits : Exits) : Pull FeatureSet := do
  let feature ← Pull.feature exits
  Pull.skipTrivia
  if (← Pull.peek).kind = .eof then return ⟨[feature]⟩
  else Pull.fail fun t => .afterFeature t.kind t.line

/-- Read a document: one feature and nothing after it. -/
def Pull.document (exits : Exits) : Pull FeatureSet := do
  Pull.skipTrivia
  let t ← Pull.peek
  if t.kind = .feature ∨ t.kind = .tag then Pull.wholeFeature exits
  else Pull.unexpected .feature

/-! ## Tags and descriptions -/

variable {C : Kind → Prop} (exits : Exits)

open Pull (Follows)

theorem sound_tags : Loop.tags.Sound Stream fun tags ts =>
    if (peek ts).kind = .tag then .ok (tags ++ (readTags ts).1, (readTags ts).2)
    else .ok (tags, ts) := by
  refine Loop.sound
    (R := fun tags ts => .ok (tags ++ [(peek ts).literal], skipTrivia ts.tail))
    (fun tags => (Follows.advance (by decide)).bind fun t => follows_skipTrivia.bind fun _ =>
      .pure (tags ++ [t.literal])) rfl (fun _ t ts _ => skipTrivia_suffix ts) fun tags ts => ?_
  rcases ts with _ | ⟨t, ts⟩
  · rfl
  · change (if t.kind = .tag then _ else _) = if (t.kind == .tag) = true then _ else _
    by_cases ht : t.kind = .tag
    · have hcons : readTags (t :: ts) = (t.literal :: (readTags ts).1, (readTags ts).2) := by
        simp [readTags, ht, Kind.isTrivia]
      rw [if_pos ht, if_pos (beq_iff_eq.2 ht), hcons, Parsed.ok_andThen]
      split
      · simp [readTags_skipTrivia]
      · next hnext =>
        have hnone := readTags_eq_self (isTrivia_peek_skipTrivia ts) hnext
        rw [readTags_skipTrivia] at hnone
        simp [hnone]
    · rw [if_neg ht, if_neg (by simpa using ht)]

theorem follows_tags : Pull.tags.Follows C fun ts => .ok (readTags ts) := by
  refine Follows.congr (follows_skipTrivia.bind fun _ => sound_tags.follows []) fun ts => ?_
  rw [Parsed.ok_andThen]
  split
  · rw [readTags_skipTrivia]
    rfl
  · next h =>
    rw [← readTags_skipTrivia, readTags_eq_self (isTrivia_peek_skipTrivia ts) h]

theorem endsLine_of_goesOn {k : Kind} (h : Loop.description.goesOn k = true)
    (htrivia : k.isTrivia = false) : k.endsLine = false := by
  simp only [Loop.description, Bool.not_eq_true'] at h
  cases k <;> simp_all [Kind.endsDescription, Kind.isTrivia, Kind.endsLine]

theorem sound_description : Loop.description.Sound Stream fun lines ts =>
    .ok (lines ++ (Feature.readDescription ts).1, (Feature.readDescription ts).2) := by
  have hround : ∀ lines, (Loop.description.round lines).Follows
      (Loop.description.goesOn · = true) _ := fun lines =>
    Follows.ite (D := (·.isTrivia = true)) ((follows_skip (by decide)).bind fun _ => .pure lines)
      (follows_freeText.bind fun text =>
        Follows.pure (if text.isEmpty then lines else lines ++ [text]))
  refine Loop.sound hround rfl (fun lines t ts hk => ?_) fun lines ts => ?_
  · simp only [peek_cons, Parsed.ok_andThen]
    split
    · exact List.suffix_rfl
    · next htrivia =>
      rw [dropLine_cons (endsLine_of_goesOn hk (by simpa using htrivia))]
      exact dropLine_suffix ts
  · rcases ts with _ | ⟨t, ts⟩
    · simp [Feature.readDescription, Loop.description, peek, Kind.endsDescription]
    · change _ = if (!t.kind.endsDescription) = true then _ else _
      rw [Feature.readDescription]
      cases hk : t.kind.endsDescription with
      | true => simp
      | false =>
        cases htrivia : t.kind.isTrivia with
        | true => simp [htrivia, Parsed.ok_andThen]
        | false =>
          have hline := endsLine_of_goesOn (by simp [Loop.description, hk]) htrivia
          rw [peek_cons, takeLine_cons hline, dropLine_cons hline]
          by_cases hempty : FreeText.ofLine (t :: takeLine ts) = ""
          · simp [htrivia, hempty, Parsed.ok_andThen]
          · simp [htrivia, hempty, Parsed.ok_andThen]

/-! ## Entries -/

theorem follows_examples : (Pull.examples exits).Follows C Entry.readExamples :=
  follows_skipTrivia.bind fun _ => (follows_expect (by decide)).bind fun _ =>
    (follows_expect (by decide)).bind fun _ => (follows_expect (by decide)).bind fun _ =>
    follows_skipTrivia.bind fun _ =>
    .ite (D := (· == .tableData)) (follows_table exits) (follows_unexpected _)

theorem follows_scenario (tags : List String) (line : Nat) :
    (Pull.scenario exits tags line).Follows C (Entry.readScenario tags line) :=
  (follows_heading exits).bind fun text => (follows_stepBlock exits .scenario).bind fun steps =>
    .pure (Entry.scenario ⟨text, line, tags, steps⟩)

theorem follows_outline (tags : List String) (line : Nat) :
    (Pull.outline exits tags line).Follows C (Entry.readOutline tags line) :=
  (follows_heading exits).bind fun text => (follows_stepBlock exits .outline).bind fun steps =>
    (follows_examples exits).bind fun examples =>
    .pure (Entry.outline ⟨⟨text, line, tags, steps⟩, examples⟩)

theorem follows_tagged (tags : List String) :
    (Pull.tagged exits tags).Follows C (Entry.readTagged tags) := by
  have hbody : ∀ line, (Pull.entryBody exits tags line).Follows (fun _ => True) _ := fun line =>
    Follows.ite (D := (· = .outline)) ((follows_skip (by decide)).bind fun _ =>
      follows_outline exits tags line) ((follows_scenario exits tags line).mono fun _ _ => trivial)
  refine Follows.congr (Follows.ite (D := (· = .scenario)) ((Follows.advance (by decide)).bind
    fun t => hbody t.line) (follows_unexpected .scenario)) fun ts => ?_
  rfl

theorem follows_entry : (Pull.entry exits).Follows C Entry.read :=
  follows_tags.bind fun tags => follows_tagged exits tags

theorem sound_entries : (Loop.entries exits).Sound Stream fun entries ts =>
    (Entry.readAll ts).andThen fun more rest => .ok (entries ++ more, rest) := by
  refine Loop.sound
    (R := fun entries ts => (Entry.read ts).andThen fun entry rest =>
      .ok (entries ++ [entry], skipTrivia rest))
    (fun entries => (follows_entry exits).bind fun entry => follows_skipTrivia.bind fun _ =>
      .pure _) rfl (fun entries t ts hk => ?_) fun entries ts => ?_
  · have ht : t.kind = .tag ∨ t.kind = .scenario := by simpa [Loop.entries] using hk
    exact Parsed.rest_andThen_suffix (Entry.rest_read_suffix ts ht) fun _ rest =>
      skipTrivia_suffix rest
  · rw [Entry.readAll_repeats.append entries ts]
    change _ = if decide ((peek ts).kind = .tag ∨ (peek ts).kind = .scenario) = true then _ else _
    simp only [decide_eq_true_eq]
    split
    · next hk =>
      rw [Entry.readRound_eq hk]
      simp only [Parsed.andThen_assoc, Parsed.ok_andThen]
    · rfl

/-! ## Features and documents -/

theorem follows_background? : (Pull.background? exits).Follows C Feature.readBackground? := by
  refine Follows.congr (Follows.ite (D := (· = .background)) ((follows_skip (by decide)).bind
    fun _ => (follows_heading exits).bind fun _ =>
      (follows_stepBlock exits .background).map some) (.pure none)) fun ts => ?_
  rfl

theorem follows_feature : (Pull.feature exits).Follows C Feature.read := by
  have hbody : ∀ tags, (Pull.featureBody exits tags).Follows (· = .feature) _ := fun tags =>
    (Follows.advance (by decide)).bind fun keyword => (follows_heading exits).bind fun title =>
      (sound_description.follows []).bind fun description =>
      (follows_background? exits).bind fun background => follows_skipTrivia.bind fun _ =>
      ((sound_entries exits).follows []).bind fun scenarios =>
      Follows.pure (Feature.mk title keyword.line tags description background scenarios)
  refine Follows.congr (follows_tags.bind fun tags => Follows.ite (D := (· = .feature))
    (hbody tags) (follows_unexpected .feature)) fun ts => ?_
  rw [Parsed.ok_andThen, Feature.read]
  dsimp only
  split
  · simp only [Parsed.andThen_assoc, Parsed.ok_andThen, List.nil_append]
  · rfl

theorem follows_document : (Pull.document exits).Follows C FeatureSet.read := by
  have hwhole : (Pull.wholeFeature exits).Follows (fun _ => True) _ :=
    (follows_feature exits).bind fun feature => follows_skipTrivia.bind fun _ =>
      Follows.ite (D := (· = .eof)) (.pure (FeatureSet.mk [feature]))
        (.fail fun t => .afterFeature t.kind t.line)
  refine Follows.congr (follows_skipTrivia.bind fun _ =>
    Follows.ite (D := fun k => k = .feature ∨ k = .tag) (hwhole.mono fun _ _ => trivial)
      (follows_unexpected .feature)) fun ts => ?_
  rfl

end FeatureDoc
