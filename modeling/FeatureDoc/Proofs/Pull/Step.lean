import FeatureDoc.Proofs.Grammar.Acceptance
import FeatureDoc.Proofs.Pull.Loop

/-!
# Steps on demand

The readers of lines, tables and steps once more, now asking for their tokens one by one. Each
stands beside the law that says which reader of lists it follows.

* `Exits` are the two places at which a line would go on although nothing may follow in it.
  Everything holds whatever is done there: no text leads to them.
* `Loop.cells` is the one loop that may not start anywhere. In a text, a line that starts with a
  cell holds only cells, and this is the invariant of `sound_cells`.
-/

namespace FeatureDoc

namespace Pull

variable {α : Type}

/-- Skip the token in view. -/
def skip : Pull Unit := do
  let _ ← advance
  return ()

/-- Refuse the token in view, where one of another kind is needed. -/
def unexpected (kind : Kind) : Pull α := fail (.unexpected kind)

/-- Advance over a token of a kind. -/
def expect (kind : Kind) : Pull Unit := do
  if (← peek).kind = kind then skip else unexpected kind

/-- Advance over a line end, if there is one. -/
def skipNewline : Pull Unit := do
  if (← peek).kind = .newline then skip else return ()

end Pull

/-- Skip line ends and comments. -/
def Loop.trivia : Loop Unit := ⟨Kind.isTrivia, fun _ => Pull.skip⟩

/-- Skip line ends and comments. -/
def Pull.skipTrivia : Pull Unit := Loop.trivia.run ()

/-- Collect the free text of a line. -/
def Loop.words : Loop FreeText where
  goesOn k := !k.endsLine
  round text := do
    let t ← Pull.advance
    return (Piece.ofToken? t).elim text text.append

/-- Read the free text up to the end of the line. -/
def Pull.freeText : Pull String := do
  let text ← Loop.words.run FreeText.empty
  return String.ofList (Text.trim text.text)

/-- What is done where a line goes on although nothing may follow in it. -/
structure Exits where
  /-- In a row, at a token that is not a cell. -/
  row : Pull Row
  /-- Behind a heading, at a token that does not end the line. -/
  heading : Pull Unit

/-- Refuse what follows. -/
def Exits.refuse : Exits := ⟨Pull.unexpected .tableData, Pull.unexpected .newline⟩

/-- Run on for ever. -/
def Exits.diverge : Exits := ⟨liftM (none : Option Row), liftM (none : Option Unit)⟩

/-- Advance over the end of the line; the end of the text is one, too. -/
def Pull.lineEnd (exits : Exits) : Pull Unit := do
  match (← Pull.peek).kind with
  | .newline => Pull.skip
  | .eof => return ()
  | _ => exits.heading

/-- Read free text and the end of its line. -/
def Pull.title (exits : Exits) : Pull String := do
  let text ← Pull.freeText
  Pull.lineEnd exits
  return text

/-- Read the colon and the free text of a heading, and the end of its line. -/
def Pull.heading (exits : Exits) : Pull String := do
  Pull.expect .colon
  Pull.title exits

/-- Collect the cells of a row. -/
def Loop.cells (exits : Exits) : Loop Row where
  goesOn k := !k.endsLine
  round row := do
    if (← Pull.peek).isCell then
      let t ← Pull.advance
      return row ++ [Cell.ofToken t]
    else exits.row

/-- Read the cells of a row, up to the end of the line, and that end. -/
def Pull.row (exits : Exits) : Pull Row := do
  let row ← (Loop.cells exits).run []
  Pull.skipNewline
  return row

/-- Append a row, which has to be as wide as the first one. -/
def appendRow (rows : List Row) (row : Row) (line : Nat) : Except ParseError (List Row) :=
  let expected := (rows.head?.map List.length).getD row.length
  if row.length = expected then .ok (rows ++ [row])
  else .error (.raggedRow row.length expected line)

/-- Collect rows as long as lines start with a cell. -/
def Loop.rows (exits : Exits) : Loop (List Row) where
  goesOn k := k == .tableData
  round rows := do
    let first ← Pull.peek
    let row ← Pull.row exits
    appendRow rows row first.line

/-- Read a table. -/
def Pull.table (exits : Exits) : Pull Table := do
  let rows ← (Loop.rows exits).run []
  return ⟨rows⟩

/-- Fold the tokens of a step line. -/
def Loop.line : Loop StepText where
  goesOn k := !k.endsLine
  round s := do
    let t ← Pull.advance
    s.add t (← Pull.peek)

/-- Read the table below a step line, if there is one. -/
def Pull.table? (exits : Exits) : Pull (Option Table) := do
  if (← Pull.peek).isCell then some <$> Pull.table exits else return none

/-- Read the block of text below a step, if there is one. -/
def Pull.block (s : StepText) : Pull StepText := do
  if (← Pull.peek).kind = .docString then
    let t ← Pull.advance
    return s.putBlock t.literal
  else return s

/-- Read a step from its keyword on. -/
def Pull.step (exits : Exits) : Pull Step := do
  let keyword ← Pull.advance
  let body ← Loop.line.run StepText.empty
  Pull.skipNewline
  let table ← Pull.table? exits
  let body ← Pull.block body.trim
  return ⟨keyword, String.ofList body.text, body.data, table, keyword.line⟩

/-- Collect steps as long as a step keyword comes next. -/
def Loop.steps (exits : Exits) : Loop (List Step) where
  goesOn := Kind.isStepKeyword
  round steps := do
    let step ← Pull.step exits
    Pull.skipTrivia
    return steps ++ [step]

/-- Read one or more steps. -/
def Pull.stepBlock (exits : Exits) (owner : StepOwner) : Pull (List Step) := do
  Pull.skipTrivia
  if (← Pull.peek).kind.isStepKeyword then (Loop.steps exits).run []
  else Pull.fail fun t => .noSteps owner t.kind t.line

/-! ## Tokens and lines -/

variable {α : Type} {C : Kind → Prop} (exits : Exits)

open Pull (Follows)

theorem follows_skip (hC : ¬ C .eof) : Pull.skip.Follows C fun ts => .ok ((), ts.tail) :=
  (Follows.advance hC).bind fun _ => .pure ()

theorem follows_unexpected (k : Kind) : (Pull.unexpected k : Pull α).Follows C (refuse k) :=
  .fail _

theorem follows_expect {k : Kind} (hk : k ≠ .eof) : (Pull.expect k).Follows C (expect k) :=
  .ite (D := (· = k)) (follows_skip fun h => hk h.symm) (follows_unexpected k)

theorem follows_skipNewline : Pull.skipNewline.Follows C fun ts => .ok ((), skipNewline ts) := by
  refine Follows.congr (Follows.ite (D := (· = .newline)) (follows_skip (by decide)) (.pure ()))
    fun ts => ?_
  unfold skipNewline
  split <;> rfl

theorem sound_trivia : Loop.trivia.Sound Stream fun _ ts => .ok ((), skipTrivia ts) := by
  refine Loop.sound (R := fun _ ts => .ok ((), ts.tail)) (fun _ => follows_skip (by decide)) rfl
    (fun _ _ _ _ => List.suffix_rfl) fun _ ts => ?_
  rcases ts with _ | ⟨t, ts⟩
  · rfl
  · change _ = if t.kind.isTrivia then _ else _
    split
    · next h =>
      rw [skipTrivia_cons h]
      rfl
    · next h => rw [skipTrivia_eq_self (by simpa using h)]

theorem follows_skipTrivia : Pull.skipTrivia.Follows C fun ts => .ok ((), skipTrivia ts) :=
  sound_trivia.follows ()

theorem sound_words : Loop.words.Sound Stream fun text ts =>
    .ok (((takeLine ts).filterMap Piece.ofToken?).foldl FreeText.append text, dropLine ts) := by
  refine Loop.sound (R := fun (text : FreeText) ts =>
    .ok ((Piece.ofToken? (peek ts)).elim text text.append, ts.tail))
    (fun text => (Follows.advance (by decide)).bind fun t => .pure _) rfl
    (fun _ _ _ _ => List.suffix_rfl) fun text ts => ?_
  rcases ts with _ | ⟨t, ts⟩
  · rfl
  · change _ = if (!t.kind.endsLine) = true then _ else _
    cases h : t.kind.endsLine with
    | true => simp [h]
    | false => cases hp : Piece.ofToken? t <;> simp [h, hp, Parsed.andThen]

theorem follows_freeText :
    Pull.freeText.Follows C fun ts => .ok (FreeText.ofLine (takeLine ts), dropLine ts) :=
  (sound_words.follows FreeText.empty).bind fun _ => .pure _

/-- Where a line ends, its end is read. -/
theorem follows_lineEnd : (Pull.lineEnd exits).Follows (·.endsLine = true) lineEnd := by
  intro f hf hk
  rw [lineEnd, Feed.peek_pending]
  refine Pull.Meets.peek_bind ?_
  rcases Kind.endsLine_iff.1 hk with hk | hk
  · rw [hk]
    exact follows_skip (C := (· = .newline)) (by decide) f hf hk
  · rw [hk]
    exact .pure () f

/-- Behind free text there is always the end of the line. -/
theorem follows_title : (Pull.title exits).Follows C fun ts =>
    (lineEnd (dropLine ts)).andThen fun _ rest => .ok (FreeText.ofLine (takeLine ts), rest) := by
  intro f hf _
  refine (follows_freeText (C := fun _ => True) f hf trivial).bind_of_ok fun g hg hrest => ?_
  have hends : g.next.kind.endsLine = true := by
    rw [← g.peek_pending, hrest]
    exact endsLine_peek_dropLine _
  have hend := (follows_lineEnd exits).bind fun _ =>
    Follows.pure (FreeText.ofLine (takeLine f.pending))
  dsimp only
  rw [← hrest]
  exact hend g (hg.stream hf) hends

theorem follows_heading : (Pull.heading exits).Follows C readHeading :=
  (follows_expect (by decide)).bind fun _ => follows_title exits

/-! ## Tables -/

/-- What is left of a line holds only cells. -/
def HoldsCells (ts : List Token) : Prop := Stream ts ∧ ∀ t ∈ takeLine ts, t.isCell = true

namespace HoldsCells

variable {ts : List Token}

theorem isCell_peek (h : HoldsCells ts) (hk : (peek ts).kind.endsLine = false) :
    (peek ts).isCell = true := by
  rcases ts with _ | ⟨t, ts⟩
  · cases hk
  · refine h.2 t ?_
    rw [takeLine_cons (show t.kind.endsLine = false from hk)]
    exact List.mem_cons_self

theorem tail (h : HoldsCells ts) (hk : (peek ts).kind.endsLine = false) : HoldsCells ts.tail := by
  rcases ts with _ | ⟨t, ts⟩
  · cases hk
  · refine ⟨h.1.tail, fun u hu => h.2 u ?_⟩
    rw [takeLine_cons (show t.kind.endsLine = false from hk)]
    exact List.mem_cons_of_mem t hu

end HoldsCells

theorem sound_cells : (Loop.cells exits).Sound HoldsCells fun row ts =>
    .ok (row ++ (takeLine ts).map Cell.ofToken, dropLine ts) := by
  have hline : ∀ {k}, (Loop.cells exits).goesOn k = true → k.endsLine = false := fun h => by
    simpa [Loop.cells] using h
  refine Loop.sound_of_invariant
    (R := fun row ts => .ok (row ++ [Cell.ofToken (peek ts)], ts.tail))
    (fun row f hf hk => ?_) (fun row ts hk => ?_) (fun row ts hts hk => hts.tail (hline hk))
    fun row ts hts => ?_
  · -- by the invariant, the token in view is a cell, so the other exit is out of reach
    have hcell : f.next.isCell = true := by
      rw [← f.peek_pending]
      exact hf.isCell_peek (by rw [Feed.peek_pending]; exact hline hk)
    refine Pull.Meets.peek_bind ?_
    rw [if_pos hcell]
    exact ((Follows.advance (C := (· = .tableData)) (by decide)).bind
      fun t => .pure (row ++ [Cell.ofToken t])) f hf.1 (beq_iff_eq.1 hcell)
  · rcases ts with _ | ⟨t, ts⟩
    · cases hk
    · exact Nat.lt_succ_self _
  · rcases ts with _ | ⟨t, ts⟩
    · simp [Loop.cells, peek, takeLine, dropLine, Kind.endsLine]
    · change _ = if (!t.kind.endsLine) = true then _ else _
      cases h : t.kind.endsLine with
      | true => simp [h]
      | false => simp [h, Parsed.andThen]

/-- In front of a cell, a row is read. -/
theorem follows_row : (Pull.row exits).Follows (· = .tableData) Table.readRow := by
  intro f hf hk
  have hcells := hf.isCell_of_mem_takeLine (by rw [Feed.peek_pending]; exact beq_iff_eq.2 hk)
  rw [Table.readRow_eq_ok.2 ⟨hcells, rfl, rfl⟩]
  refine (sound_cells exits [] f ⟨hf, hcells⟩).2.bind_of_ok fun g hg hrest => ?_
  rw [← hrest]
  exact ((follows_skipNewline (C := fun _ => True)).bind fun _ => .pure _) g (hg.stream hf) trivial

/-- A row that is as wide as the first one keeps the width, and the first row gives it. -/
theorem length_head?_append {rows : List Row} {row : Row}
    (h : row.length = (rows.head?.map List.length).getD row.length) :
    (rows ++ [row]).head?.map List.length = some row.length := by
  cases rows with
  | nil => rfl
  | cons first rows => exact congrArg some h.symm

theorem sound_rows : (Loop.rows exits).Sound Stream fun rows ts =>
    (Table.readRows (rows.head?.map List.length) ts).andThen fun more rest =>
      .ok (rows ++ more, rest) := by
  refine Loop.sound
    (R := fun rows ts => (Table.readRow ts).andThen fun row rest =>
      .ofExcept (appendRow rows row (peek ts).line) rest)
    (fun rows f hf hk => ?_) rfl (fun rows t ts hk => ?_) fun rows ts => ?_
  · have hrow := (follows_row exits).bind fun row =>
      Follows.lift (appendRow rows row f.next.line)
    dsimp only
    rw [Feed.peek_pending]
    exact Pull.Meets.peek_bind (hrow f hf (beq_iff_eq.1 hk))
  · exact Parsed.rest_andThen_suffix (Table.rest_readRow_suffix ts hk) fun _ rest =>
      Parsed.rest_ofExcept_suffix _ rest
  · change _ = if (peek ts).isCell = true then _ else _
    split
    · next hcell =>
      rw [readRows_of_isCell hcell, Parsed.andThen_assoc, Parsed.andThen_assoc]
      congr 1
      funext row rest
      unfold appendRow
      dsimp only
      split
      · next hlen =>
        change _ = (Table.readRows ((rows ++ [row]).head?.map List.length) rest).andThen _
        rw [length_head?_append hlen, Parsed.andThen_assoc]
        simp [Parsed.andThen]
      · rfl
    · next hcell =>
      rcases ts with _ | ⟨t, ts⟩
      · simp [Table.readRows, Parsed.andThen]
      · have ht : ¬ t.isCell = true := hcell
        simp [Table.readRows, ht, Parsed.andThen]

theorem follows_table : (Pull.table exits).Follows C Table.read := by
  refine Follows.congr (((sound_rows exits).follows []).bind fun rows =>
    Follows.pure (Table.mk rows)) fun ts => ?_
  simp [Table.read, Parsed.andThen_assoc, Parsed.ok_andThen]

/-! ## Steps -/

theorem sound_line : Loop.line.Sound Stream StepText.readLine := by
  refine Loop.sound
    (R := fun (s : StepText) ts => .ofExcept (s.add (peek ts) (peek ts.tail)) ts.tail)
    (fun s => (Follows.advance (by decide)).bind fun t => Follows.peek.bind fun next =>
      Follows.lift (s.add t next)) rfl (fun s t ts _ => Parsed.rest_ofExcept_suffix _ ts)
    fun s ts => ?_
  rcases ts with _ | ⟨t, ts⟩
  · rfl
  · change _ = if (!t.kind.endsLine) = true then _ else _
    unfold StepText.readLine
    cases h : t.kind.endsLine with
    | true => rfl
    | false =>
      rw [peek_cons, List.tail_cons]
      cases s.add t (peek ts) <;> rfl

theorem follows_table? : (Pull.table? exits).Follows C Step.readTable? :=
  .ite (D := (· == .tableData)) ((follows_table exits).map some) (.pure none)

theorem follows_block (s : StepText) :
    (Pull.block s).Follows C fun ts => .ok (Step.readBlock s ts) := by
  refine (Follows.ite (D := (· = .docString))
    ((Follows.advance (by decide)).bind fun t => .pure (s.putBlock t.literal))
    (.pure s)).congr fun ts => ?_
  unfold Step.readBlock
  split <;> rfl

theorem follows_step :
    (Pull.step exits).Follows (·.isStepKeyword = true) fun ts => Step.read (peek ts) ts.tail := by
  refine Follows.congr ((Follows.advance (by decide)).bind fun keyword =>
    (sound_line.follows StepText.empty).bind fun body =>
    follows_skipNewline.bind fun _ => (follows_table? exits).bind fun table =>
    (follows_block body.trim).bind fun body =>
    Follows.pure (Step.ofParts keyword table body)) fun ts => ?_
  rw [Parsed.ok_andThen]
  rfl

theorem sound_steps : (Loop.steps exits).Sound Stream fun steps ts =>
    (Step.readAll ts).andThen fun more rest => .ok (steps ++ more, rest) := by
  refine Loop.sound
    (R := fun steps ts => (Step.read (peek ts) ts.tail).andThen fun step rest =>
      .ok (steps ++ [step], skipTrivia rest))
    (fun steps => (follows_step exits).bind fun step => follows_skipTrivia.bind fun _ => .pure _)
    rfl (fun steps t ts hk => ?_) fun steps ts => ?_
  · exact Parsed.rest_andThen_suffix (Step.rest_read_suffix t ts) fun _ rest =>
      skipTrivia_suffix rest
  · rw [(Step.readAll_repeats (ParseError.unexpected .eof)).append steps ts]
    change _ = if (peek ts).kind.isStepKeyword = true then _ else _
    split
    · next hk =>
      rw [Step.readRound, take, if_pos hk, Parsed.ok_andThen]
      simp only [Parsed.andThen_assoc, Parsed.ok_andThen]
    · rfl

theorem follows_stepBlock (owner : StepOwner) :
    (Pull.stepBlock exits owner).Follows C (Step.readBlockOf owner) := by
  refine Follows.congr (follows_skipTrivia.bind fun _ =>
    Follows.ite (D := (·.isStepKeyword = true)) ((sound_steps exits).follows [])
      (.fail fun t => .noSteps owner t.kind t.line)) fun ts => ?_
  rw [Parsed.ok_andThen, Step.readBlockOf]
  simp only [List.nil_append]
  split
  · cases Step.readAll (skipTrivia ts) <;> rfl
  · rfl

end FeatureDoc
