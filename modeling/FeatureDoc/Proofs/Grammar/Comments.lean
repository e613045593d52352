import FeatureDoc.Proofs.Grammar.Acceptance
import FeatureDoc.Proofs.Token.Comment

/-!
# Readers ignore comments

A comment may stand at the end of every line but one: the line of the examples ends right after its
colon. Elsewhere a reader skips a comment together with the line end after it, or inside a line, so
it reads the same without comments.

* `Commented ts` says that `ts` are tokens of a text in which no comment stands after the colon of
  examples.
* `Parsed.Uncommented p p'` compares two outcomes: both are errors, or they are the same value, with
  the same tokens left but for the comments.
* `IgnoresComments R` is the law that `R` does the same without comments. It has rules for readers
  in a row, choices and loops.
* `FeatureSet.uncommented_read` says this of documents, `parse_withoutComments` of texts.
-/

namespace FeatureDoc

variable {α β : Type} {ts rest : List Token}

/-! ## Lists of tokens -/

theorem peek_uncomment (h : (peek ts).kind ≠ .comment) : peek (uncomment ts) = peek ts := by
  rcases ts with _ | ⟨t, ts⟩
  · rfl
  · rw [peek_cons] at h
    rw [uncomment_cons h, peek_cons, peek_cons]

theorem tail_uncomment (h : (peek ts).kind ≠ .comment) :
    (uncomment ts).tail = uncomment ts.tail := by
  rcases ts with _ | ⟨t, ts⟩
  · rfl
  · rw [peek_cons] at h
    rw [uncomment_cons h, List.tail_cons, List.tail_cons]

/-- Without a comment, the end of the line comes next. -/
theorem Stream.endsLine_peek_uncomment (hts : Stream ts) (h : (peek ts).kind = .comment) :
    (peek (uncomment ts)).kind.endsLine = true := by
  rcases ts with _ | ⟨t, _ | ⟨u, ts⟩⟩
  · cases h
  · rw [peek_cons] at h
    rw [uncomment_cons_of_comment h]
    rfl
  · rw [peek_cons] at h
    have hu : u.kind.endsLine = true := (List.isChain_cons_cons.1 hts.isChain).1.comment h
    have hne : u.kind ≠ .comment := by
      intro hk
      rw [hk] at hu
      cases hu
    rw [uncomment_cons_of_comment h, uncomment_cons hne, peek_cons]
    exact hu

theorem skipTrivia_uncomment (ts : List Token) :
    skipTrivia (uncomment ts) = uncomment (skipTrivia ts) := by
  induction ts with
  | nil => rfl
  | cons t ts ih =>
    by_cases hcomment : t.kind = .comment
    · rw [uncomment_cons_of_comment hcomment, skipTrivia_cons (by rw [hcomment]; rfl), ih]
    · rw [uncomment_cons hcomment]
      by_cases htrivia : t.kind.isTrivia = true
      · rw [skipTrivia_cons htrivia, skipTrivia_cons htrivia, ih]
      · rw [Bool.not_eq_true] at htrivia
        rw [@skipTrivia_eq_self (t :: uncomment ts) htrivia,
          @skipTrivia_eq_self (t :: ts) htrivia, uncomment_cons hcomment]

theorem takeLine_uncomment (ts : List Token) :
    takeLine (uncomment ts) = uncomment (takeLine ts) := by
  induction ts with
  | nil => rfl
  | cons t ts ih =>
    by_cases hcomment : t.kind = .comment
    · rw [uncomment_cons_of_comment hcomment, takeLine_cons (by rw [hcomment]; rfl),
        uncomment_cons_of_comment hcomment, ih]
    · rw [uncomment_cons hcomment]
      by_cases hends : t.kind.endsLine = true
      · rw [takeLine_cons_of_endsLine hends, takeLine_cons_of_endsLine hends]
        rfl
      · rw [Bool.not_eq_true] at hends
        rw [takeLine_cons hends, takeLine_cons hends, uncomment_cons hcomment, ih]

theorem dropLine_uncomment (ts : List Token) :
    dropLine (uncomment ts) = uncomment (dropLine ts) := by
  have hsplit : uncomment ts = uncomment (takeLine ts) ++ uncomment (dropLine ts) := by
    conv_lhs => rw [← takeLine_append_dropLine ts]
    exact List.filter_append _ _
  rw [← takeLine_uncomment, ← takeLine_append_dropLine (uncomment ts)] at hsplit
  rw [takeLine_append_dropLine] at hsplit
  exact List.append_cancel_left ((takeLine_append_dropLine _).trans hsplit)

theorem skipNewline_uncomment (h : (peek ts).kind ≠ .comment) :
    skipNewline (uncomment ts) = uncomment (skipNewline ts) := by
  unfold skipNewline
  rw [peek_uncomment h, tail_uncomment h]
  split
  · rfl
  · rfl

theorem skipNewline_dropLine_uncomment (ts : List Token) :
    skipNewline (dropLine (uncomment ts)) = uncomment (skipNewline (dropLine ts)) := by
  have hends := endsLine_peek_dropLine ts
  rw [dropLine_uncomment, skipNewline_uncomment]
  intro hk
  rw [hk] at hends
  cases hends

theorem FreeText.ofLine_uncomment (line : List Token) :
    FreeText.ofLine (uncomment line) = FreeText.ofLine line := by
  have hpieces : (uncomment line).filterMap Piece.ofToken? = line.filterMap Piece.ofToken? := by
    induction line with
    | nil => rfl
    | cons t line ih =>
      by_cases hcomment : t.kind = .comment
      · have hnone : Piece.ofToken? t = none := by rw [Piece.ofToken?, hcomment]
        rw [uncomment_cons_of_comment hcomment, List.filterMap_cons_none hnone, ih]
      · rw [uncomment_cons hcomment, List.filterMap_cons, List.filterMap_cons, ih]
  rw [FreeText.ofLine, FreeText.ofLine, hpieces]

theorem readTags_uncomment (ts : List Token) :
    readTags (uncomment ts) = ((readTags ts).1, uncomment (readTags ts).2) := by
  induction ts with
  | nil => rfl
  | cons t ts ih =>
    by_cases hcomment : t.kind = .comment
    · rw [uncomment_cons_of_comment hcomment, ih, readTags, if_pos (by rw [hcomment]; rfl)]
    · rw [uncomment_cons hcomment, readTags, readTags, ih]
      split
      · rfl
      · split
        · rfl
        · rw [uncomment_cons hcomment]

theorem Feature.readDescription_uncomment (ts : List Token) :
    readDescription (uncomment ts) =
      ((readDescription ts).1, uncomment (readDescription ts).2) := by
  fun_induction readDescription ts with
  | case1 => rw [show uncomment [] = [] from rfl, readDescription]
  | case2 t ts hends =>
    have hne : t.kind ≠ .comment := by
      intro hk
      rw [hk] at hends
      cases hends
    rw [uncomment_cons hne, readDescription, if_pos hends]
  | case3 t ts hends htrivia ih =>
    by_cases hcomment : t.kind = .comment
    · rw [uncomment_cons_of_comment hcomment, ih]
    · rw [uncomment_cons hcomment, readDescription, if_neg hends, if_pos htrivia, ih]
  | case4 t ts hends htrivia text lines rest hread ih =>
    have hne : t.kind ≠ .comment := fun hk => htrivia (by rw [hk]; rfl)
    have htext : FreeText.ofLine (t :: takeLine (uncomment ts)) = text := by
      rw [takeLine_uncomment, ← uncomment_cons hne, FreeText.ofLine_uncomment]
    rw [hread] at ih
    rw [uncomment_cons hne, readDescription, if_neg hends, if_neg htrivia]
    dsimp only
    rw [htext, dropLine_uncomment, ih]

/-! ## Outcomes -/

/-- `p'` is the outcome `p` without comments: both are errors, or the same value was read, and the
same tokens are left but for the comments. -/
inductive Parsed.Uncommented : Parsed α → Parsed α → Prop where
  /-- The same value was read. -/
  | ok (a : α) (rest : List Token) : Uncommented (.ok (a, rest)) (.ok (a, uncomment rest))
  /-- Nothing was read. -/
  | error (failure failure' : Failure) : Uncommented (.error failure) (.error failure')

namespace Parsed.Uncommented

theorem ok_iff {p p' : Parsed α} (h : p.Uncommented p') {a : α} {rest' : List Token} :
    p' = .ok (a, rest') ↔ ∃ rest, p = .ok (a, rest) ∧ rest' = uncomment rest := by
  cases h with
  | ok b rest =>
    constructor
    · intro heq
      cases heq
      exact ⟨rest, rfl, rfl⟩
    · rintro ⟨_, heq, rfl⟩
      cases heq
      rfl
  | error failure failure' => simp

theorem of_ok_iff {p p' : Parsed α}
    (h : ∀ a rest', p' = .ok (a, rest') ↔ ∃ rest, p = .ok (a, rest) ∧ rest' = uncomment rest) :
    p.Uncommented p' := by
  rcases p with failure | ⟨a, rest⟩
  · rcases p' with failure' | ⟨a, rest'⟩
    · exact .error _ _
    · obtain ⟨_, heq, -⟩ := (h a rest').1 rfl
      cases heq
  · rw [(h a _).2 ⟨rest, rfl, rfl⟩]
    exact .ok a rest

theorem andThen {p p' : Parsed α} (h : p.Uncommented p') {S : α → List Token → Parsed β}
    (hS : ∀ a rest, p = .ok (a, rest) → (S a rest).Uncommented (S a (uncomment rest))) :
    (p.andThen S).Uncommented (p'.andThen S) := by
  cases h with
  | ok a rest => exact hS a rest rfl
  | error failure failure' => exact .error failure failure'

end Parsed.Uncommented

/-! ## The law -/

/-- Tokens of a text in which no comment stands after the colon of examples. -/
structure Commented (ts : List Token) : Prop where
  /-- They come out of a text. -/
  stream : Stream ts
  /-- The line of the examples ends right after the colon. -/
  examples : ¬ [.examples, .colon, .comment] <:+: ts.map Token.kind

theorem Commented.of_suffix (h : Commented ts) (hs : rest <:+ ts) : Commented rest :=
  ⟨h.stream.of_suffix hs, fun hkinds => h.examples (hkinds.trans (hs.map Token.kind).isInfix)⟩

/-- `R` does the same without comments. -/
structure IgnoresComments (R : List Token → Parsed α) : Prop where
  /-- What is left is an end of the tokens. -/
  rest_suffix : ∀ ts, (R ts).rest <:+ ts
  /-- Without comments the outcome is the same. -/
  uncommented : ∀ {ts}, Commented ts → (R ts).Uncommented (R (uncomment ts))

/-- Only tokens inside a line are of such a kind, and no comments. -/
def InsideLine (C : Kind → Prop) : Prop := ¬ C .comment ∧ ¬ C .newline ∧ ¬ C .eof

instance {C : Kind → Prop} [DecidablePred C] : Decidable (InsideLine C) :=
  inferInstanceAs (Decidable (_ ∧ _ ∧ _))

/-- The next token inside a line is the same without comments. -/
theorem InsideLine.peek_iff {C : Kind → Prop} (hC : InsideLine C) (hts : Stream ts) :
    C (peek (uncomment ts)).kind ↔ C (peek ts).kind := by
  by_cases hcomment : (peek ts).kind = .comment
  · rw [hcomment]
    rcases Kind.endsLine_iff.1 (hts.endsLine_peek_uncomment hcomment) with hk | hk
    · rw [hk]
      exact iff_of_false hC.2.1 hC.1
    · rw [hk]
      exact iff_of_false hC.2.2 hC.1
  · rw [peek_uncomment hcomment]

namespace IgnoresComments

variable {R S : List Token → Parsed α} {C : Kind → Prop}

theorem pure (a : α) : IgnoresComments fun ts => .ok (a, ts) :=
  ⟨fun _ => List.suffix_rfl, fun _ => .ok a _⟩

theorem skip (a : α) : IgnoresComments fun ts => .ok (a, skipTrivia ts) where
  rest_suffix := skipTrivia_suffix
  uncommented := by
    intro ts _
    rw [skipTrivia_uncomment]
    exact .ok a _

theorem refuse (k : Kind) : IgnoresComments (refuse (α := α) k) :=
  ⟨fun _ => List.suffix_rfl, fun _ => .error _ _⟩

theorem andThen (hR : IgnoresComments R) {S : α → List Token → Parsed β}
    (hS : ∀ a, IgnoresComments (S a)) : IgnoresComments fun ts => (R ts).andThen S where
  rest_suffix := fun ts =>
    Parsed.rest_andThen_suffix (hR.rest_suffix ts) fun a => (hS a).rest_suffix
  uncommented := by
    intro ts hts
    refine (hR.uncommented hts).andThen fun a rest ha => ?_
    exact (hS a).uncommented (hts.of_suffix (Parsed.suffix_of_eq_ok (hR.rest_suffix ts) ha))

theorem after_skipTrivia (hR : IgnoresComments R) :
    IgnoresComments fun ts => R (skipTrivia ts) where
  rest_suffix := fun ts => (hR.rest_suffix _).trans (skipTrivia_suffix ts)
  uncommented := by
    intro ts hts
    rw [skipTrivia_uncomment]
    exact hR.uncommented (hts.of_suffix (skipTrivia_suffix ts))

/-- A choice that a token inside the line decides. -/
theorem ite [DecidablePred C] (hC : InsideLine C) (hR : IgnoresComments R)
    (hS : IgnoresComments S) :
    IgnoresComments fun ts => if C (peek ts).kind then R ts else S ts where
  rest_suffix := by
    intro ts
    split
    · exact hR.rest_suffix ts
    · exact hS.rest_suffix ts
  uncommented := by
    intro ts hts
    by_cases hk : C (peek ts).kind
    · rw [if_pos hk, if_pos ((hC.peek_iff hts.stream).2 hk)]
      exact hR.uncommented hts
    · rw [if_neg hk, if_neg (mt (hC.peek_iff hts.stream).1 hk)]
      exact hS.uncommented hts

/-- A loop that a token inside the line goes on with. The induction is on the rounds: the first
one, by the law for `R`, and the others. -/
theorem loop {L : List Token → Parsed (List α)} (hL : Repeats L R List.cons [] C)
    (hC : InsideLine C) (hR : IgnoresComments R) : IgnoresComments L where
  rest_suffix := hL.rest_suffix hR.rest_suffix
  uncommented := by
    intro ts hts
    induction ts using hL.induction with
    | step ts ih =>
      by_cases hk : C (peek ts).kind
      · rw [hL.more hk, hL.more ((hC.peek_iff hts.stream).2 hk)]
        refine (hR.uncommented hts).andThen fun a mid ha => ?_
        have hmid := hts.of_suffix (Parsed.suffix_of_eq_ok (hR.rest_suffix ts) ha)
        exact (ih a mid hk ha hmid).andThen fun as rest _ => .ok (a :: as) rest
      · rw [hL.done hk, hL.done (mt (hC.peek_iff hts.stream).1 hk)]
        exact .ok [] ts

end IgnoresComments

/-! ## One token -/

theorem uncommented_take {C : Kind → Prop} [DecidablePred C] (error : Token → ParseError)
    (h : (peek ts).kind ≠ .comment) :
    (take C error ts).Uncommented (take C error (uncomment ts)) := by
  unfold take
  rw [peek_uncomment h, tail_uncomment h]
  split
  · exact .ok _ _
  · exact .error _ _

theorem ignoresComments_take {C : Kind → Prop} [DecidablePred C] (hC : InsideLine C)
    (error : Token → ParseError) : IgnoresComments (take C error) where
  rest_suffix := rest_take_suffix
  uncommented := by
    intro ts hts
    by_cases hcomment : (peek ts).kind = .comment
    · have hk : ¬ C (peek ts).kind := hcomment ▸ hC.1
      rw [take, take, if_neg hk, if_neg (mt (hC.peek_iff hts.stream).1 hk)]
      exact .error _ _
    · exact uncommented_take error hcomment

theorem ignoresComments_expect {k : Kind} (hk : InsideLine (· = k)) :
    IgnoresComments (expect k) := by
  rw [expect_eq]
  exact (ignoresComments_take hk _).andThen fun _ => .pure ()

theorem exists_cons_of_expect {k : Kind} (hk : k ≠ .eof) (h : expect k ts = .ok ((), rest)) :
    ∃ t, t.kind = k ∧ ts = t :: rest := by
  rw [expect_eq] at h
  obtain ⟨t, _, htake, heq⟩ := Parsed.andThen_eq_ok.1 h
  cases heq
  exact ⟨t, (take_eq_ok fun heof => hk heof.symm).1 htake⟩

theorem ignoresComments_readHeading : IgnoresComments readHeading := by
  rw [funext readHeading_eq]
  refine (ignoresComments_expect (by decide)).andThen fun _ => ?_
  refine ⟨fun ts => (skipNewline_suffix _).trans (dropLine_suffix ts), fun {ts} _ => ?_⟩
  rw [takeLine_uncomment, FreeText.ofLine_uncomment, skipNewline_dropLine_uncomment]
  exact .ok _ _

theorem ignoresComments_readTags : IgnoresComments fun ts => .ok (readTags ts) where
  rest_suffix := readTags_suffix
  uncommented := by
    intro ts _
    rw [readTags_uncomment]
    exact .ok _ _

/-! ## Tables -/

theorem uncomment_eq_self {l : List Token} (h : ∀ t ∈ l, t.isCell = true) : uncomment l = l := by
  refine List.filter_eq_self.2 fun t ht => ?_
  have hk : t.kind = .tableData := beq_iff_eq.1 (h t ht)
  rw [hk]
  rfl

/-- There are no comments in the line of a row. -/
theorem Stream.takeLine_uncomment_of_isCell (hts : Stream ts) (h : (peek ts).isCell = true) :
    takeLine (uncomment ts) = takeLine ts := by
  rw [takeLine_uncomment, uncomment_eq_self (hts.isCell_of_mem_takeLine h)]

theorem isCell_peek_uncomment (hts : Stream ts) :
    (peek (uncomment ts)).isCell = (peek ts).isCell := by
  have hiff : (peek (uncomment ts)).kind = .tableData ↔ (peek ts).kind = .tableData :=
    InsideLine.peek_iff (C := (· = .tableData)) (by decide) hts
  rw [Token.isCell, Token.isCell, Bool.eq_iff_iff, beq_iff_eq, beq_iff_eq, hiff]

theorem isRow_uncomment_iff (hts : Stream ts) {n : Nat} :
    IsRow (n + 1) (takeLine (uncomment ts)) ↔ IsRow (n + 1) (takeLine ts) := by
  constructor
  · intro h
    have hcell := h.isCell_peek
    rw [isCell_peek_uncomment hts] at hcell
    rwa [hts.takeLine_uncomment_of_isCell hcell] at h
  · intro h
    rwa [hts.takeLine_uncomment_of_isCell h.isCell_peek]

theorem ignoresComments_rowReader (n : Nat) : IgnoresComments (rowReader (n + 1)) where
  rest_suffix := (readsLine_row n).rest_suffix
  uncommented := by
    intro ts hts
    refine .of_ok_iff fun row rest' => ?_
    rw [rowReader_eq_ok, isRow_uncomment_iff hts.stream, skipNewline_dropLine_uncomment]
    constructor
    · rintro ⟨hrow, rfl, rfl⟩
      rw [hts.stream.takeLine_uncomment_of_isCell hrow.isCell_peek]
      exact ⟨_, rowReader_eq_ok.2 ⟨hrow, rfl, rfl⟩, rfl⟩
    · rintro ⟨rest, hok, rfl⟩
      obtain ⟨hrow, rfl, rfl⟩ := rowReader_eq_ok.1 hok
      rw [hts.stream.takeLine_uncomment_of_isCell hrow.isCell_peek]
      exact ⟨hrow, rfl, rfl⟩

theorem takeWhile_isCell_uncomment (hts : Stream ts) :
    (uncomment ts).takeWhile Token.isCell = ts.takeWhile Token.isCell := by
  have hpeek := isCell_peek_uncomment hts
  by_cases hcell : (peek ts).isCell = true
  · have hline := hts.isCell_of_mem_takeLine hcell
    have heq := hts.takeLine_uncomment_of_isCell hcell
    rw [takeWhile_isCell_eq_takeLine hline, takeWhile_isCell_eq_takeLine (heq.symm ▸ hline), heq]
  · have hnil : ∀ {l : List Token}, (peek l).isCell = (peek ts).isCell →
        l.takeWhile Token.isCell = [] := by
      intro l hl
      rcases l with _ | ⟨t, l⟩
      · rfl
      · exact List.takeWhile_cons_of_neg fun ht => hcell (hl.symm.trans ht)
    rw [hnil hpeek, hnil rfl]

theorem ignoresComments_tableReader : IgnoresComments tableReader where
  rest_suffix := reads_tableReader.rest_suffix
  uncommented := by
    intro ts hts
    rw [tableReader_eq, tableReader_eq, takeWhile_isCell_uncomment hts.stream]
    generalize (ts.takeWhile Token.isCell).length - 1 = n
    have hrows : IgnoresComments (Table.readRows (some (n + 1))) :=
      .loop (readRows_repeats _) (by decide) (ignoresComments_rowReader n)
    have htable : IgnoresComments (tableOfWidth (n + 1)) :=
      .ite (C := (· = .tableData)) (by decide)
        ((ignoresComments_rowReader n).andThen fun row => hrows.andThen fun rows =>
          .pure (⟨row :: rows⟩ : Table)) (.refuse _)
    exact htable.uncommented hts

/-! ## Steps -/

namespace StepText

theorem add_congr_isData {next next' : Token} (h : next'.kind.isData = next.kind.isData)
    (s : StepText) (t : Token) : s.add t next' = s.add t next := by
  have hmark : ∀ p, s.putMark p next' = s.putMark p next := by
    intro p
    rw [putMark, putMark, h]
  unfold add
  simp only [hmark]

/-- A comment gives no text, and a datum is not followed by other text because of it. -/
theorem ignoresComments_readLine (s : StepText) : IgnoresComments s.readLine where
  rest_suffix := rest_readLine_suffix s
  uncommented := by
    intro ts hts
    induction ts generalizing s with
    | nil => exact .ok s []
    | cons t ts ih =>
      have hts' := hts.of_suffix (List.suffix_cons t ts)
      by_cases hcomment : t.kind = .comment
      · have hadd : s.add t (peek ts) = .ok s := by rw [add, hcomment]
        have hline : s.readLine (t :: ts) = s.readLine ts := by
          rw [readLine, hcomment, hadd]
          rfl
        rw [uncomment_cons_of_comment hcomment, hline]
        exact ih s hts'
      · have hdata : (peek (uncomment ts)).kind.isData = (peek ts).kind.isData :=
          Bool.eq_iff_iff.2 (InsideLine.peek_iff (C := (·.isData = true)) (by decide) hts'.stream)
        rw [uncomment_cons hcomment, readLine, readLine, add_congr_isData hdata]
        split
        · rw [← uncomment_cons hcomment]
          exact .ok s _
        · split
          · next s' _ => exact ih s' hts'
          · exact .error _ _

end StepText

namespace Step

theorem ignoresComments_readTable? : IgnoresComments readTable? := by
  rw [funext readTable?_eq]
  exact .ite (C := (· = .tableData)) (by decide)
    (ignoresComments_tableReader.andThen fun table => .pure (some table)) (.pure none)

theorem ignoresComments_finish (keyword : Token) (body : StepText) (table : Option Table) :
    IgnoresComments (finish keyword body table) :=
  .ite (C := (· = .docString)) (by decide)
    ((ignoresComments_take (by decide) _).andThen fun _ => .pure _) (.pure _)

theorem ignoresComments_read (keyword : Token) : IgnoresComments (read keyword) := by
  have hline : IgnoresComments fun ts => (StepText.empty.readLine ts).andThen fun body rest =>
      .ok (body, skipNewline rest) := by
    refine ⟨readsLine_step.rest_suffix, fun {ts} hts => ?_⟩
    refine ((StepText.ignoresComments_readLine _).uncommented hts).andThen fun body rest hbody => ?_
    rw [StepText.rest_of_readLine hbody, ← dropLine_uncomment, skipNewline_dropLine_uncomment]
    exact .ok body _
  rw [funext (read_eq keyword)]
  exact hline.andThen fun body => ignoresComments_readTable?.andThen fun table =>
    ignoresComments_finish keyword body.trim table

theorem ignoresComments_readRound (error : Token → ParseError) :
    IgnoresComments (readRound error) :=
  (ignoresComments_take (by decide) _).andThen fun keyword =>
    (ignoresComments_read keyword).andThen fun step => .skip step

theorem ignoresComments_readBlockOf (owner : StepOwner) :
    IgnoresComments (readBlockOf owner) := by
  have hall : IgnoresComments readAll :=
    .loop (readAll_repeats (ParseError.unexpected .eof)) (by decide) (ignoresComments_readRound _)
  rw [funext (readBlockOf_eq owner)]
  exact ((ignoresComments_readRound _).andThen fun step => hall.andThen fun steps =>
    .pure (step :: steps)).after_skipTrivia

end Step

/-! ## Entries -/

namespace Entry

/-- The one place where a comment may not stand. -/
theorem ignoresComments_readExamplesFrom : IgnoresComments readExamplesFrom where
  rest_suffix := reads_readExamplesFrom.rest_suffix
  uncommented := by
    intro ts hts
    refine ((ignoresComments_expect (by decide)).uncommented hts).andThen fun _ r₁ hkeyword => ?_
    obtain ⟨x, hx, rfl⟩ := exists_cons_of_expect (by decide) hkeyword
    have hr₁ := hts.of_suffix (List.suffix_cons x r₁)
    refine ((ignoresComments_expect (by decide)).uncommented hr₁).andThen fun _ r₂ hcolon => ?_
    obtain ⟨y, hy, rfl⟩ := exists_cons_of_expect (by decide) hcolon
    have hr₂ := hr₁.of_suffix (List.suffix_cons y r₂)
    have hline : (peek r₂).kind ≠ .comment := by
      rcases r₂ with _ | ⟨z, r₂⟩
      · exact nofun
      · intro hz
        rw [peek_cons] at hz
        refine hts.examples ⟨[], r₂.map Token.kind, ?_⟩
        rw [List.map_cons, List.map_cons, List.map_cons, hx, hy, hz]
        rfl
    have hnewline : (expect .newline r₂).Uncommented (expect .newline (uncomment r₂)) := by
      rw [expect_eq]
      exact (uncommented_take _ hline).andThen fun _ rest _ => .ok () rest
    refine hnewline.andThen fun _ r₃ hr₃ => ?_
    exact ignoresComments_tableReader.after_skipTrivia.uncommented
      (hr₂.of_suffix (Parsed.suffix_of_eq_ok (rest_expect_suffix .newline r₂) hr₃))

theorem ignoresComments_readOutlineRound (tags : List String) (line : Nat) :
    IgnoresComments (readOutlineRound tags line) :=
  ignoresComments_readHeading.andThen fun _ => (Step.ignoresComments_readBlockOf _).andThen fun _ =>
    ignoresComments_readExamplesFrom.andThen fun _ => .skip _

theorem ignoresComments_readScenario (tags : List String) (line : Nat) :
    IgnoresComments (readScenario tags line) :=
  ignoresComments_readHeading.andThen fun _ =>
    (Step.ignoresComments_readBlockOf _).andThen fun _ => .pure _

theorem ignoresComments_readKeyworded (tags : List String) :
    IgnoresComments (readKeyworded tags) :=
  (ignoresComments_take (by decide) _).andThen fun t => .ite (C := (· = .outline)) (by decide)
    ((ignoresComments_take (by decide) _).andThen fun _ =>
      ignoresComments_readOutlineRound tags t.line)
    (ignoresComments_readScenario tags t.line)

theorem ignoresComments_readOpenTags : IgnoresComments readOpenTags :=
  .ite (C := (· = .tag)) (by decide) ((ignoresComments_take (by decide) _).andThen fun t =>
    ignoresComments_readTags.andThen fun tags => .pure (t.literal :: tags)) (.pure [])

theorem ignoresComments_readAll : IgnoresComments readAll :=
  .loop readAll_repeats (by decide)
    (ignoresComments_readOpenTags.andThen ignoresComments_readKeyworded)

end Entry

/-! ## Features and documents -/

namespace Feature

theorem ignoresComments_readDescription :
    IgnoresComments fun ts => .ok (readDescription ts) where
  rest_suffix := reads_readDescription.rest_suffix
  uncommented := by
    intro ts _
    rw [readDescription_uncomment]
    exact .ok _ _

theorem ignoresComments_readBackground? : IgnoresComments readBackground? := by
  rw [funext readBackground?_eq]
  refine .ite (C := (· = .background)) (by decide) ?_ (.pure none)
  exact (ignoresComments_take (by decide) _).andThen fun _ =>
    ignoresComments_readHeading.andThen fun _ =>
      (Step.ignoresComments_readBlockOf _).andThen fun steps => .pure (some steps)

theorem ignoresComments_read : IgnoresComments read := by
  rw [funext read_eq]
  refine ignoresComments_readTags.andThen fun tags =>
    (ignoresComments_take (by decide) _).andThen fun keyword => ?_
  exact ignoresComments_readHeading.andThen fun title =>
    ignoresComments_readDescription.andThen fun description =>
      ignoresComments_readBackground?.andThen fun background =>
        Entry.ignoresComments_readAll.andThen fun scenarios => .pure _

end Feature

/-- **A document is the same without its comments.** -/
theorem FeatureSet.uncommented_read (hts : Commented ts) :
    (read ts).Uncommented (read (uncomment ts)) := by
  rw [read_eq, read_eq]
  refine (Feature.ignoresComments_read.uncommented hts).andThen fun feature rest hfeature => ?_
  have hrest : (peek rest).kind ≠ .comment := by
    intro hk
    have htrivia := Feature.isTrivia_of_read hfeature
    rw [hk] at htrivia
    cases htrivia
  rw [peek_uncomment hrest]
  split
  · exact .ok _ rest
  · exact .error _ _

/-- **Comments never change what is read.** Let no comment of a text stand right after the colon of
examples. Then the text is a document if and only if it is one without its comments, and it is the
same document, on the same lines. -/
theorem parse_withoutComments {s : String}
    (h : ¬ [.examples, .colon, .comment] <:+: (tokens s).map Token.kind) (set : FeatureSet) :
    parse (Text.withoutComments s) = .ok set ↔ parse s = .ok set := by
  have hread := FeatureSet.uncommented_read ⟨stream_tokens s, h⟩
  rw [parse_eq_ok_iff, parse_eq_ok_iff, tokens_withoutComments]
  constructor
  · rintro ⟨rest', hok⟩
    obtain ⟨rest, hrest, -⟩ := hread.ok_iff.1 hok
    exact ⟨rest, hrest⟩
  · rintro ⟨rest, hok⟩
    exact ⟨uncomment rest, hread.ok_iff.2 ⟨rest, hok, rfl⟩⟩

/-- Comments after a tag, a heading, a description, a reference and a table. -/
theorem parse_withoutComments_everywhere :
    parse (Text.withoutComments ("# a\n@t # b\nFeature: f# c\nd # e > f\n# g\n" ++
      "Scenario Outline: o # h\nGiven a <x># i\n| y |\n# j\nExamples:\n# k\n| x |\n| 1 |\n# l")) =
      .ok ⟨[⟨"f", 3, ["t"], ["d"], none,
        [.outline ⟨⟨"o", 6, [], [⟨⟨.step .given, "Given", 7⟩, "a {{<x>}}", [],
          some ⟨[[⟨"y", 8⟩]]⟩, 7⟩]⟩, ⟨[[⟨"x", 12⟩], [⟨"1", 13⟩]]⟩⟩]⟩]⟩ :=
  (parse_withoutComments (by decide +kernel) _).2 (by decide +kernel)

end FeatureDoc
