import FeatureDoc.Proofs.Grammar.Feature
import FeatureDoc.Proofs.Token.Append

/-!
# Readers do not look at lines

Lines of tokens go into what is read and into errors, and decide nothing: tokens on other lines are
read in the same way, with the other lines in the result.

* `Cell.mapLine`, `Step.mapLine`, `Entry.mapLine` and those in between change all lines of what was
  read.
* `MapsLine g f R R'` says that `R'` reads from tokens on other lines what `R` reads, changed by
  `f`. It has rules for readers in a row, choices and loops.
* `Entry.mapsLine_readAll` is the main statement.
-/

namespace FeatureDoc

variable {g : Nat → Nat}

/-! ## What was read, on other lines -/

/-- The cell on another line. -/
def Cell.mapLine (g : Nat → Nat) (c : Cell) : Cell := { c with line := g c.line }

/-- The table on other lines. -/
def Table.mapLine (g : Nat → Nat) (t : Table) : Table :=
  ⟨t.rows.map fun row => row.map (Cell.mapLine g)⟩

/-- The step, its keyword and its table on other lines. -/
def Step.mapLine (g : Nat → Nat) (s : Step) : Step :=
  { s with
    keyword := s.keyword.mapLine g
    table := s.table.map (Table.mapLine g)
    line := g s.line }

/-- The scenario and its steps on other lines. -/
def Scenario.mapLine (g : Nat → Nat) (s : Scenario) : Scenario :=
  { s with line := g s.line, steps := s.steps.map (Step.mapLine g) }

/-- The entry, its steps and its examples on other lines. -/
def Entry.mapLine (g : Nat → Nat) : Entry → Entry
  | .scenario s => .scenario (s.mapLine g)
  | .outline o => .outline ⟨o.toScenario.mapLine g, o.examples.mapLine g⟩

/-! ## Lists of tokens -/

theorem kind_peek_map (ts : List Token) :
    (peek (ts.map (Token.mapLine g))).kind = (peek ts).kind := by
  cases ts <;> rfl

theorem skipTrivia_map (ts : List Token) :
    skipTrivia (ts.map (Token.mapLine g)) = (skipTrivia ts).map (Token.mapLine g) :=
  List.dropWhile_map

theorem takeLine_map (ts : List Token) :
    takeLine (ts.map (Token.mapLine g)) = (takeLine ts).map (Token.mapLine g) :=
  List.takeWhile_map

theorem dropLine_map (ts : List Token) :
    dropLine (ts.map (Token.mapLine g)) = (dropLine ts).map (Token.mapLine g) :=
  List.dropWhile_map

theorem skipNewline_map (ts : List Token) :
    skipNewline (ts.map (Token.mapLine g)) = (skipNewline ts).map (Token.mapLine g) := by
  unfold skipNewline
  rw [kind_peek_map]
  split
  · exact List.map_tail.symm
  · rfl

theorem FreeText.ofLine_map (line : List Token) :
    FreeText.ofLine (line.map (Token.mapLine g)) = FreeText.ofLine line := by
  unfold FreeText.ofLine
  rw [List.filterMap_map]
  rfl

theorem readTags_map (ts : List Token) : readTags (ts.map (Token.mapLine g)) =
    ((readTags ts).1, (readTags ts).2.map (Token.mapLine g)) := by
  induction ts with
  | nil => rfl
  | cons t ts ih =>
    rw [List.map_cons, readTags, readTags, ih, Token.kind_mapLine]
    split
    · rfl
    · split
      · rfl
      · rfl

/-! ## The law -/

/-- `R'` reads from tokens on other lines what `R` reads, changed by `f`. -/
def MapsLine {α β : Type} (g : Nat → Nat) (f : α → β) (R : List Token → Parsed α)
    (R' : List Token → Parsed β) : Prop :=
  ∀ ⦃ts a rest⦄, R ts = .ok (a, rest) →
    R' (ts.map (Token.mapLine g)) = .ok (f a, rest.map (Token.mapLine g))

namespace MapsLine

variable {α β γ δ : Type} {f : α → β} {h : γ → δ} {R : List Token → Parsed α}
  {R' : List Token → Parsed β}

theorem pure {a : α} {b : β} (hab : f a = b) :
    MapsLine g f (fun ts => .ok (a, ts)) (fun ts => .ok (b, ts)) := by
  intro ts _ rest hok
  cases hok
  rw [hab]

theorem skip {a : α} {b : β} (hab : f a = b) :
    MapsLine g f (fun ts => .ok (a, skipTrivia ts)) (fun ts => .ok (b, skipTrivia ts)) := by
  intro ts _ rest hok
  cases hok
  dsimp only
  rw [hab, skipTrivia_map]

theorem andThen {S : α → List Token → Parsed γ} {S' : β → List Token → Parsed δ}
    (hR : MapsLine g f R R') (hS : ∀ a, MapsLine g h (S a) (S' (f a))) :
    MapsLine g h (fun ts => (R ts).andThen S) (fun ts => (R' ts).andThen S') := by
  intro ts c rest hok
  obtain ⟨a, mid, hRa, hSa⟩ := Parsed.andThen_eq_ok.1 hok
  exact Parsed.andThen_eq_ok.2 ⟨f a, _, hR hRa, hS a hSa⟩

theorem after_skipTrivia (hR : MapsLine g f R R') :
    MapsLine g f (fun ts => R (skipTrivia ts)) (fun ts => R' (skipTrivia ts)) := by
  intro ts a rest hok
  dsimp only at hok ⊢
  rw [skipTrivia_map]
  exact hR hok

theorem ite {S : List Token → Parsed α} {S' : List Token → Parsed β} {C : Kind → Prop}
    [DecidablePred C] (hR : MapsLine g f R R') (hS : MapsLine g f S S') :
    MapsLine g f (fun ts => if C (peek ts).kind then R ts else S ts)
      (fun ts => if C (peek ts).kind then R' ts else S' ts) := by
  intro ts a rest hok
  dsimp only at hok ⊢
  rw [kind_peek_map]
  split at hok
  · next hC => rw [if_pos hC, hR hok]
  · next hC => rw [if_neg hC, hS hok]

theorem refuse (k : Kind) : MapsLine g f (refuse k) R' := by
  intro ts a rest hok
  cases hok

theorem loop {L : List Token → Parsed (List α)} {L' : List Token → Parsed (List β)}
    {C : Kind → Prop} (hL : Repeats L R List.cons [] C) (hL' : Repeats L' R' List.cons [] C)
    (hR : MapsLine g f R R') : MapsLine g (List.map f) L L' := by
  intro ts as rest hok
  induction ts using hL.induction generalizing as with
  | step ts ih =>
    have hpeek := kind_peek_map (g := g) ts
    rcases hL.eq_ok hok with ⟨hC, rfl, rfl⟩ | ⟨a, as, mid, hC, ha, hmid, rfl⟩
    · exact hL'.done (by rwa [hpeek])
    · exact hL'.cons_ok (by rwa [hpeek]) (hR ha) (ih a mid hC ha hmid)

end MapsLine

theorem mapsLine_take {C : Kind → Prop} [DecidablePred C] (hC : ¬ C .eof)
    (error error' : Token → ParseError) :
    MapsLine g (Token.mapLine g) (take C error) (take C error') := by
  intro ts t rest hok
  obtain ⟨ht, rfl⟩ := (take_eq_ok hC).1 hok
  exact (take_eq_ok hC).2 ⟨ht, rfl⟩

theorem mapsLine_expect {k : Kind} (hk : k ≠ .eof) : MapsLine g id (expect k) (expect k) := by
  rw [expect_eq]
  exact (mapsLine_take (fun h => hk h.symm) _ _).andThen fun _ => .pure rfl

theorem mapsLine_readHeading : MapsLine g id readHeading readHeading := by
  rw [funext readHeading_eq]
  refine (mapsLine_expect (by decide)).andThen fun _ ts title rest hok => ?_
  cases hok
  rw [takeLine_map, dropLine_map, skipNewline_map, FreeText.ofLine_map]
  rfl

/-! ## Tables -/

theorem isRow_map_iff {n : Nat} {l : List Token} :
    IsRow n (l.map (Token.mapLine g)) ↔ IsRow n l := by
  unfold IsRow
  rw [List.length_map, List.forall_mem_map]
  rfl

theorem mapsLine_rowReader (n : Nat) :
    MapsLine g (List.map (Cell.mapLine g)) (rowReader (n + 1)) (rowReader (n + 1)) := by
  intro ts row rest hok
  obtain ⟨hrow, rfl, rfl⟩ := rowReader_eq_ok.1 hok
  apply rowReader_eq_ok.2
  rw [takeLine_map, dropLine_map, skipNewline_map, isRow_map_iff, List.map_map, List.map_map]
  exact ⟨hrow, rfl, rfl⟩

theorem mapsLine_tableReader : MapsLine g (Table.mapLine g) tableReader tableReader := by
  intro ts table rest hok
  have hwidth : ((ts.map (Token.mapLine g)).takeWhile Token.isCell).length =
      (ts.takeWhile Token.isCell).length := by
    rw [List.takeWhile_map, List.length_map]
    rfl
  rw [tableReader_eq] at hok ⊢
  rw [hwidth]
  revert hok
  generalize (ts.takeWhile Token.isCell).length - 1 = n
  intro hok
  have hrows : MapsLine g (List.map (List.map (Cell.mapLine g))) (Table.readRows (some (n + 1)))
      (Table.readRows (some (n + 1))) :=
    .loop (readRows_repeats _) (readRows_repeats _) (mapsLine_rowReader n)
  have htable : MapsLine g (Table.mapLine g) (tableOfWidth (n + 1)) (tableOfWidth (n + 1)) :=
    MapsLine.ite (C := (· = .tableData)) ((mapsLine_rowReader n).andThen fun row =>
      hrows.andThen fun rows => .pure rfl) (.refuse _)
  exact htable hok

/-! ## Steps -/

namespace StepText

theorem putMark_congr {next next' : Token} (h : next'.kind = next.kind) (s : StepText)
    (p : Placeholder) : s.putMark p next' = s.putMark p next := by
  rw [putMark, putMark, h]

theorem add_mapLine {s s' : StepText} {t next next' : Token} (hnext : next'.kind = next.kind)
    (h : s.add t next = .ok s') : s.add (t.mapLine g) next' = .ok s' := by
  obtain ⟨k, literal, line⟩ := t
  unfold add at h ⊢
  simp only [Token.mapLine, putMark_congr hnext] at h ⊢
  -- the line goes into an error only
  have hite : ∀ (b : Bool) (e e' : ParseError) (s₁ : StepText),
      (if b = true then .error e else .ok s₁) = Except.ok s' →
        (if b = true then .error e' else .ok s₁) = Except.ok s' := by
    intro b e e' s₁ hok
    split at hok
    · cases hok
    · next hb => rw [if_neg hb, hok]
  cases k with
  | number | string | docString | comment | tag => exact h
  | _ => exact hite _ _ _ _ h

theorem mapsLine_readLine (s : StepText) : MapsLine g id s.readLine s.readLine := by
  intro ts s' rest hok
  induction ts generalizing s with
  | nil =>
    cases hok
    rfl
  | cons t ts ih =>
    by_cases hends : t.kind.endsLine = true
    · rw [readLine, if_pos hends] at hok
      cases hok
      exact if_pos hends
    · rw [readLine, if_neg hends] at hok
      split at hok
      · next s₁ hadd =>
        rw [List.map_cons, readLine, Token.kind_mapLine, if_neg hends,
          add_mapLine (kind_peek_map ts) hadd]
        exact ih s₁ hok
      · cases hok

end StepText

namespace Step

theorem mapsLine_readTable? : MapsLine g (Option.map (Table.mapLine g)) readTable? readTable? := by
  rw [funext readTable?_eq]
  refine MapsLine.ite (C := (· = .tableData)) (mapsLine_tableReader.andThen fun table => ?_)
    (.pure rfl)
  exact .pure rfl

theorem mapsLine_finish (keyword : Token) (body : StepText) (table : Option Table) :
    MapsLine g (Step.mapLine g) (finish keyword body table)
      (finish (keyword.mapLine g) body (table.map (Table.mapLine g))) := by
  refine MapsLine.ite (C := (· = .docString)) ?_ (.pure rfl)
  exact (mapsLine_take (by decide) _ _).andThen fun t => .pure rfl

theorem mapsLine_read (keyword : Token) :
    MapsLine g (Step.mapLine g) (read keyword) (read (keyword.mapLine g)) := by
  rw [funext (read_eq keyword), funext (read_eq (keyword.mapLine g))]
  have hline : MapsLine g id
      (fun ts => (StepText.empty.readLine ts).andThen fun body rest => .ok (body, skipNewline rest))
      (fun ts => (StepText.empty.readLine ts).andThen fun body rest =>
        .ok (body, skipNewline rest)) := by
    refine (StepText.mapsLine_readLine _).andThen fun body ts _ rest hok => ?_
    cases hok
    rw [skipNewline_map]
  exact hline.andThen fun body => mapsLine_readTable?.andThen fun table =>
    mapsLine_finish keyword body.trim table

theorem mapsLine_readRound (error error' : Token → ParseError) :
    MapsLine g (Step.mapLine g) (readRound error) (readRound error') :=
  (mapsLine_take (by decide) _ _).andThen fun keyword =>
    (mapsLine_read keyword).andThen fun step => .skip rfl

theorem mapsLine_readBlockOf (owner : StepOwner) :
    MapsLine g (List.map (Step.mapLine g)) (readBlockOf owner) (readBlockOf owner) := by
  have hrepeats := readAll_repeats (ParseError.unexpected .eof)
  rw [funext (readBlockOf_eq owner)]
  exact MapsLine.after_skipTrivia ((mapsLine_readRound _ _).andThen fun step =>
    (MapsLine.loop hrepeats hrepeats (mapsLine_readRound _ _)).andThen fun steps => .pure rfl)

end Step

/-! ## Entries -/

namespace Entry

theorem mapsLine_readExamplesFrom :
    MapsLine g (Table.mapLine g) readExamplesFrom readExamplesFrom :=
  (mapsLine_expect (by decide)).andThen fun _ => (mapsLine_expect (by decide)).andThen fun _ =>
    (mapsLine_expect (by decide)).andThen fun _ => mapsLine_tableReader.after_skipTrivia

theorem mapsLine_readOutlineRound (tags : List String) (line : Nat) :
    MapsLine g (Entry.mapLine g) (readOutlineRound tags line) (readOutlineRound tags (g line)) :=
  mapsLine_readHeading.andThen fun _ => (Step.mapsLine_readBlockOf _).andThen fun _ =>
    mapsLine_readExamplesFrom.andThen fun _ => .skip rfl

theorem mapsLine_readScenario (tags : List String) (line : Nat) :
    MapsLine g (Entry.mapLine g) (readScenario tags line) (readScenario tags (g line)) :=
  mapsLine_readHeading.andThen fun _ => (Step.mapsLine_readBlockOf _).andThen fun _ => .pure rfl

theorem mapsLine_readKeyworded (tags : List String) :
    MapsLine g (Entry.mapLine g) (readKeyworded tags) (readKeyworded tags) :=
  (mapsLine_take (by decide) _ _).andThen fun t => MapsLine.ite (C := (· = .outline))
    ((mapsLine_take (by decide) _ _).andThen fun _ => mapsLine_readOutlineRound tags t.line)
    (mapsLine_readScenario tags t.line)

theorem mapsLine_readOpenTags : MapsLine g id readOpenTags readOpenTags := by
  refine MapsLine.ite (C := (· = .tag)) ?_ (.pure rfl)
  refine (mapsLine_take (by decide) _ _).andThen fun t ts tags rest hok => ?_
  cases hok
  rw [readTags_map]
  rfl

/-- **Entries on other lines are read in the same way.** -/
theorem mapsLine_readAll : MapsLine g (List.map (Entry.mapLine g)) readAll readAll :=
  .loop readAll_repeats readAll_repeats (mapsLine_readOpenTags.andThen mapsLine_readKeyworded)

end Entry

end FeatureDoc
