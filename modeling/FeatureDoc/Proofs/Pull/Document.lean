import FeatureDoc.Proofs.Document.Attempts
import FeatureDoc.Proofs.Pull.Feature

/-!
# Documents on demand

A puller is a reader of documents that scans a token only when the one before it is advanced over.
It can be asked for a document again and again, as a reader can.

* `Puller.Shows` relates a puller to the reader that it stands for; an attempt keeps the relation
  and gives the same document (`Puller.Shows.read`).
* `Puller.reads_once` is the main statement on termination: every loop ends, every round of it
  advances, and however often a puller is asked, it reads each token of the text at most once and
  none behind the end token.
* `Puller.exits_unreached` is the one on rows: no text leads to an exit in the middle of a line.
-/

namespace FeatureDoc

/-- A document that is read while it is scanned. -/
structure Puller where
  /-- The text. -/
  feed : Feed
  /-- The errors so far, in order. -/
  errors : List ParseError
  deriving DecidableEq, Repr

namespace Puller

/-- Start on a text. -/
def ofString (source : String) : Puller := ⟨.ofString source, []⟩

/-- Read a document. There is no result once there is an error, and nothing at all if the reader
runs on for ever. -/
def read (exits : Exits) (p : Puller) : Option (Option FeatureSet × Puller) :=
  match (Pull.document exits).on p.feed with
  | none => none
  | some (.ok set, feed) => some (if p.errors.isEmpty then some set else none, { p with feed })
  | some (.error e, feed) => some (none, ⟨feed, p.errors ++ [e]⟩)

/-- The puller after a number of attempts, if all of them come to an end. -/
def after (exits : Exits) (source : String) : Nat → Option Puller
  | 0 => some (ofString source)
  | k + 1 => (after exits source k).bind fun p => (p.read exits).map Prod.snd

/-- A puller that has gone as far in the text as a reader. -/
structure Shows (source : String) (p : Puller) (r : Reader) : Prop where
  /-- The end token was not advanced over. -/
  reaches : (Feed.ofString source).Reaches p.feed
  /-- The tokens that the feed has to offer are those that are left. -/
  pending : p.feed.pending = r.pending
  /-- The errors are the same. -/
  errors : p.errors = r.errors

variable {source : String} {p q : Puller} {r : Reader} {f : Feed}

theorem stream_of_reaches (h : (Feed.ofString source).Reaches f) : Stream f.pending := by
  refine h.stream ?_
  rw [Feed.pending_ofString]
  exact stream_tokens source

namespace Shows

theorem ofString (source : String) : Shows source (.ofString source) (.ofString source) :=
  ⟨.refl _, Feed.pending_ofString source, rfl⟩

/-- An attempt gives the same document, whatever is done at the exits. -/
theorem read (h : Shows source p r) (exits : Exits) :
    ∃ q, p.read exits = some (r.read.1, q) ∧ Shows source q r.read.2 := by
  obtain ⟨g, hg, hrest, hon⟩ :=
    follows_document (C := fun _ => True) exits p.feed (stream_of_reaches h.reaches) trivial
  rw [h.pending] at hrest hon
  have hreach := h.reaches.trans hg
  unfold Puller.read
  rw [hon, h.errors]
  rcases r.read_cases with ⟨set, rest, hread, heq⟩ | ⟨e, rest, hread, heq⟩
  · rw [hread] at hrest
    rw [hread, heq]
    exact ⟨⟨g, r.errors⟩, by simp [Parsed.outcome], hreach, hrest, rfl⟩
  · rw [hread] at hrest
    rw [hread, heq]
    exact ⟨⟨g, r.errors ++ [e]⟩, rfl, hreach, hrest, rfl⟩

/-- There is only one puller for each reader. -/
theorem unique (h : Shows source p r) (h' : Shows source q r) : p = q := by
  obtain ⟨feed, errors⟩ := p
  obtain ⟨feed', errors'⟩ := q
  obtain rfl : feed = feed' := h.reaches.unique h'.reaches (h.pending.trans h'.pending.symm)
  obtain rfl : errors = errors' := h.errors.trans h'.errors.symm
  rfl

end Shows

/-- However often a puller is asked, it goes as far as the reader that is asked as often. -/
theorem exists_after (exits : Exits) (source : String) (k : Nat) :
    ∃ p, after exits source k = some p ∧ Shows source p (Reader.after source k) := by
  induction k with
  | zero => exact ⟨.ofString source, rfl, .ofString source⟩
  | succ k ih =>
    obtain ⟨p, hp, hshows⟩ := ih
    obtain ⟨q, hq, hshows'⟩ := hshows.read exits
    refine ⟨q, ?_, ?_⟩
    · rw [after, hp, Option.bind_some, hq]
      rfl
    · rw [Reader.after_succ]
      exact hshows'

/-! ## Termination -/

/-- **A text is read to the end and not beyond.** Wherever in a text a loop starts, it ends, and
every round of it advances over at least one token; the loop over the cells of a row starts in
front of a cell. However often a puller is asked for a document, it comes to an end, gives what the
reader gives, and has read each token at most once: what it advanced over and what is pending are
the tokens of the text, the end token was not advanced over, and nothing behind it was read. -/
theorem reads_once (source : String) :
    (∀ f, (Feed.ofString source).Reaches f →
      Loop.trivia.Ends () f ∧ (∀ tags, Loop.tags.Ends tags f) ∧
      (∀ lines, Loop.description.Ends lines f) ∧ (∀ text, Loop.words.Ends text f) ∧
      (∀ entries, (Loop.entries .refuse).Ends entries f) ∧
      (∀ steps, (Loop.steps .refuse).Ends steps f) ∧ (∀ text, Loop.line.Ends text f) ∧
      (∀ rows, (Loop.rows .refuse).Ends rows f) ∧
      (f.next.kind = .tableData → ∀ row, (Loop.cells .refuse).Ends row f)) ∧
    ∀ k, ∃ p, after .refuse source k = some p ∧
      p.errors = (Reader.after source k).errors ∧
      p.feed.pending = (Reader.after source k).pending ∧
      (∃ q, p.read .refuse = some ((Reader.after source k).read.1, q)) ∧
      p.feed.passed ++ p.feed.pending = tokens source ∧
      (∀ t ∈ p.feed.passed, t.kind ≠ .eof) ∧ p.feed.pulled <+: tokens source := by
  refine ⟨fun f hf => ?_, fun k => ?_⟩
  · have hts := stream_of_reaches hf
    refine ⟨(sound_trivia () f hts).1, fun tags => (sound_tags tags f hts).1,
      fun lines => (sound_description lines f hts).1, fun text => (sound_words text f hts).1,
      fun entries => (sound_entries _ entries f hts).1,
      fun steps => (sound_steps _ steps f hts).1, fun text => (sound_line text f hts).1,
      fun rows => (sound_rows _ rows f hts).1, fun hcell row => ?_⟩
    have hcells := hts.isCell_of_mem_takeLine (by rw [Feed.peek_pending]; exact beq_iff_eq.2 hcell)
    exact (sound_cells _ row f ⟨hts, hcells⟩).1
  · obtain ⟨p, hp, hshows⟩ := exists_after .refuse source k
    obtain ⟨q, hq, -⟩ := hshows.read .refuse
    obtain ⟨mid, hpassed, hpending, hmid⟩ := hshows.reaches.passed
    obtain rfl : p.feed.passed = mid := hpassed
    rw [Feed.pending_ofString] at hpending
    exact ⟨p, hp, hshows.errors, hshows.pending, ⟨q, hq⟩, hpending.symm, hmid,
      hshows.reaches.pulled_prefix⟩

/-- A feature whose description is a line with one cell. The cell is reached, and an attempt
advances over all tokens but the last one. -/
theorem reads_once_description :
    (∃ f, (Feed.ofString "Feature: f\n|a|").Reaches f ∧ f.next.kind = .tableData ∧
      (Loop.cells .refuse).Ends [] f) ∧
    ∃ p, after .refuse "Feature: f\n|a|" 1 = some p ∧ p.errors = [] ∧
      (⟨.tableData, "a", 2⟩ ∈ p.feed.passed ∧ Kind.tableData ≠ .eof) := by
  obtain ⟨hloops, hattempts⟩ := reads_once "Feature: f\n|a|"
  constructor
  · have hcell : (Feed.ofString "Feature: f\n|a|").Reaches
        (Feed.ofString "Feature: f\n|a|").advance.advance.advance.advance := by
      refine ((Feed.Reaches.advance ?_).trans (.advance ?_)).trans
        ((Feed.Reaches.advance ?_).trans (.advance ?_)) <;> decide +kernel
    have hkind : (Feed.ofString "Feature: f\n|a|").advance.advance.advance.advance.next.kind =
        .tableData := by decide +kernel
    obtain ⟨-, -, -, -, -, -, -, -, hcells⟩ := hloops _ hcell
    exact ⟨_, hcell, hkind, hcells hkind []⟩
  · obtain ⟨p, hp, herrors, hpending, -, hall, hne, -⟩ := hattempts 1
    have hmem : (⟨.tableData, "a", 2⟩ : Token) ∈ tokens "Feature: f\n|a|" := by decide +kernel
    have hlast : (⟨.tableData, "a", 2⟩ : Token) ∉
        (Reader.after "Feature: f\n|a|" 1).pending := by decide +kernel
    rw [← hall, List.mem_append, hpending] at hmem
    have hpassed := hmem.resolve_right hlast
    exact ⟨p, hp, herrors.trans (by decide +kernel), hpassed, hne _ hpassed⟩

/-! ## Rows -/

/-- After a cell comes another cell or the end of the line, after a comment the end of the line. -/
theorem kind_of_append {before after : List Token} {t : Token}
    (h : tokens source = before ++ t :: after) :
    (t.kind = .tableData → ∃ u later, after = u :: later ∧
      (u.kind = .tableData ∨ u.kind = .newline ∨ u.kind = .eof)) ∧
    (t.kind = .comment → ∃ u later, after = u :: later ∧ (u.kind = .newline ∨ u.kind = .eof)) := by
  have hstream : Stream (t :: after) :=
    (stream_tokens source).of_suffix (h ▸ List.suffix_append before _)
  rcases after with _ | ⟨u, later⟩
  · obtain ⟨ts, e, htokens, he, -⟩ := (Cursor.ofString source).tokens_eq_append
    have hlast : t = e := by
      have := h.symm.trans htokens
      exact (List.append_inj' this rfl).2 |> List.cons.inj |>.1
    exact ⟨fun hk => absurd (hk.symm.trans (hlast ▸ he)) (by decide),
      fun hk => absurd (hk.symm.trans (hlast ▸ he)) (by decide)⟩
  · have hprecedes := (List.isChain_cons_cons.1 hstream.isChain).1
    refine ⟨fun hk => ⟨u, later, rfl, ?_⟩, fun hk => ⟨u, later, rfl, ?_⟩⟩
    · exact (hprecedes.cell hk).2.imp_right Kind.endsLine_iff.1
    · exact Kind.endsLine_iff.1 (hprecedes.comment hk)

/-- **A row holds only cells.** In the tokens of a text, a cell is followed by a cell, a line end or
the end token, and a comment by a line end or the end token. So a row that starts with a cell is
always read, and so is the end of a line behind free text: whatever a puller would do there
otherwise, it does the same as one that refuses, for it never comes to that. -/
theorem exits_unreached (source : String) :
    (∀ before t after, tokens source = before ++ t :: after →
      (t.kind = .tableData → ∃ u later, after = u :: later ∧
        (u.kind = .tableData ∨ u.kind = .newline ∨ u.kind = .eof)) ∧
      (t.kind = .comment → ∃ u later, after = u :: later ∧
        (u.kind = .newline ∨ u.kind = .eof))) ∧
    (∀ rest, rest <:+ tokens source → (peek rest).kind = .tableData →
      ∃ row left, Table.readRow rest = .ok (row, left)) ∧
    (∀ ts, ∃ left, lineEnd (dropLine ts) = .ok ((), left)) ∧
    ∀ exits k, ∃ p, after exits source k = some p ∧ after .refuse source k = some p ∧
      ∃ x, p.read exits = some x ∧ p.read .refuse = some x := by
  refine ⟨fun before t after h => kind_of_append h, fun rest hrest hk => ?_, fun ts => ?_,
    fun exits k => ?_⟩
  · have hcells := ((stream_tokens source).of_suffix hrest).isCell_of_mem_takeLine
      (beq_iff_eq.2 hk)
    exact ⟨_, _, Table.readRow_eq_ok.2 ⟨hcells, rfl, rfl⟩⟩
  · exact ⟨_, lineEnd_of_endsLine (endsLine_peek_dropLine ts)⟩
  · obtain ⟨p, hp, hshows⟩ := exists_after exits source k
    obtain ⟨p', hp', hshows'⟩ := exists_after .refuse source k
    obtain rfl := hshows.unique hshows'
    obtain ⟨q, hq, hshows⟩ := hshows.read exits
    obtain ⟨q', hq', hshows'⟩ := hshows'.read .refuse
    obtain rfl := hshows.unique hshows'
    exact ⟨p, hp, hp', _, hq, hq'⟩

/-- A step with a table of one row, and a comment at the end of the text. The last cell is followed
by a line end and the comment by the end token, the row is read, and a puller that would run on for
ever at an exit does what one that refuses does. -/
theorem exits_unreached_table :
    let source := "Feature: f\nScenario: s\nGiven a\n|b|c|\n# d"
    (∃ u later, (tokens source).drop 13 = u :: later ∧
      (u.kind = .tableData ∨ u.kind = .newline ∨ u.kind = .eof)) ∧
    (∃ u later, (tokens source).drop 15 = u :: later ∧ (u.kind = .newline ∨ u.kind = .eof)) ∧
    (∃ row left, Table.readRow ((tokens source).drop 11) = .ok (row, left)) ∧
    ∃ p, after .diverge source 1 = some p ∧ after .refuse source 1 = some p := by
  intro source
  obtain ⟨hnext, hrow, -, hattempts⟩ := exits_unreached source
  have hcell : tokens source = (tokens source).take 12 ++
      ⟨.tableData, "c", 4⟩ :: (tokens source).drop 13 := by decide +kernel
  have hcomment : tokens source = (tokens source).take 14 ++
      ⟨.comment, "d", 5⟩ :: (tokens source).drop 15 := by decide +kernel
  obtain ⟨p, hp, hp', -⟩ := hattempts .diverge 1
  exact ⟨(hnext _ _ _ hcell).1 rfl, (hnext _ _ _ hcomment).2 rfl,
    hrow _ (List.drop_suffix 11 _) (by decide +kernel), p, hp, hp'⟩

end Puller

end FeatureDoc
