import FeatureDoc.Proofs.Document.Trail
import FeatureDoc.Proofs.Grammar.Acceptance

/-!
# Lines and tables of a document

The parts of a document stand on lines of their own, in reading order, and its tables are rectangles
of cells on consecutive lines.

* `LinesFrom ts rest lines` says that `lines` are lines of tokens between `ts` and `rest`, each
  after the one before. `lineTrail` follows the lines of headings, steps and rows through a feature.
* `Table.WellShaped` is the shape of a table, which `shapeTrail` finds in every table of a feature.
* `Feature.steps_ne_nil` says that no steps are missing.
* `reading_order_of_parse` is the main statement.
-/

namespace FeatureDoc

/-! ## Lines of a stream -/

namespace Stream

variable {ts rest : List Token}

theorem precedes (h : Stream ts) {a b : Token} {m : List Token} (hs : a :: b :: m <:+ ts) :
    a.Precedes b := (List.isChain_cons_cons.1 (h.of_suffix hs).isChain).1

/-- Nothing but the end of the text comes after the end token. -/
theorem eof_of_suffix (h : Stream ts) (hs : rest <:+ ts) (heof : (peek ts).kind = .eof) :
    (peek rest).kind = .eof := by
  rcases ts with _ | ⟨t, _ | ⟨u, ts⟩⟩
  · rw [List.suffix_nil.1 hs]
    rfl
  · rcases List.suffix_cons_iff.1 hs with rfl | hs
    · exact heof
    · rw [List.suffix_nil.1 hs]
      rfl
  · exact absurd heof (h.precedes List.suffix_rfl).ne_eof

/-- Lines never go back. -/
theorem line_le (h : Stream ts) (hs : rest <:+ ts) (hrest : (peek rest).kind ≠ .eof) :
    (peek ts).line ≤ (peek rest).line := by
  induction ts with
  | nil => rw [List.suffix_nil.1 hs]
  | cons t ts ih =>
    rcases List.suffix_cons_iff.1 hs with rfl | hs
    · exact le_rfl
    · rcases ts with _ | ⟨u, ts⟩
      · rw [List.suffix_nil.1 hs] at hrest
        exact absurd rfl hrest
      · exact (h.precedes List.suffix_rfl).line_le.trans (ih h.tail hs)

/-- After the end of a line comes a later line, or the end of the text. -/
theorem line_lt_skipNewline (h : Stream ts) (hs : rest <:+ ts) :
    (peek (skipNewline (dropLine rest))).kind = .eof ∨
      (peek ts).line < (peek (skipNewline (dropLine rest))).line := by
  have hdrop := (dropLine_suffix rest).trans hs
  rcases Kind.endsLine_iff.1 (endsLine_peek_dropLine rest) with hk | hk
  · rcases hd : dropLine rest with _ | ⟨n, _ | ⟨u, m⟩⟩
    · exact Or.inl rfl
    · rw [hd] at hk
      rw [skipNewline_cons_of_newline (t := n) hk]
      exact Or.inl rfl
    · rw [hd] at hk hdrop
      have hle := h.line_le hdrop (by rw [hk]; decide)
      have hnext := (h.precedes hdrop).newline hk
      rw [skipNewline_cons_of_newline (t := n) hk]
      rw [peek_cons] at hle ⊢
      omega
  · rw [skipNewline_of_ne_newline (by rw [hk]; decide)]
    exact Or.inl hk

/-- The cells of a row stand on its line. -/
theorem line_of_mem_takeLine (h : Stream ts) (hcells : ∀ t ∈ takeLine ts, t.isCell = true) :
    ∀ t ∈ takeLine ts, t.line = (peek ts).line := by
  induction ts with
  | nil => simp [takeLine]
  | cons t ts ih =>
    by_cases ht : t.kind.endsLine = true
    · simp [takeLine_cons_of_endsLine ht]
    · rw [takeLine_cons (by simpa using ht), List.forall_mem_cons] at hcells ⊢
      refine ⟨rfl, fun u hu => ?_⟩
      rcases ts with _ | ⟨v, ts⟩
      · simp [takeLine] at hu
      · have hline := ((h.precedes List.suffix_rfl).cell (beq_iff_eq.1 hcells.1)).1
        rw [ih h.tail hcells.2 u hu, peek_cons, peek_cons, hline]

/-- A row ends on its line. -/
theorem line_peek_dropLine (h : Stream ts) (hcells : ∀ t ∈ takeLine ts, t.isCell = true)
    (hne : dropLine ts ≠ []) : (peek (dropLine ts)).line = (peek ts).line := by
  induction ts with
  | nil => rfl
  | cons t ts ih =>
    by_cases ht : t.kind.endsLine = true
    · rw [dropLine_cons_of_endsLine ht]
    · rw [takeLine_cons (by simpa using ht), List.forall_mem_cons] at hcells
      rw [dropLine_cons (by simpa using ht)] at hne ⊢
      rcases ts with _ | ⟨u, ts⟩
      · exact absurd rfl hne
      · have hline := ((h.precedes List.suffix_rfl).cell (beq_iff_eq.1 hcells.1)).1
        rw [ih h.tail hcells.2 hne, peek_cons, peek_cons, hline]

/-- What comes after a row comes on the next line. -/
theorem line_skipNewline_dropLine (h : Stream ts) (hcells : ∀ t ∈ takeLine ts, t.isCell = true)
    (hne : (peek (skipNewline (dropLine ts))).kind ≠ .eof) :
    (peek (skipNewline (dropLine ts))).line = (peek ts).line + 1 := by
  have hdrop := dropLine_suffix ts
  have hend := h.line_peek_dropLine hcells
  rcases Kind.endsLine_iff.1 (endsLine_peek_dropLine ts) with hk | hk
  · rcases hd : dropLine ts with _ | ⟨n, _ | ⟨u, m⟩⟩
    · rw [hd] at hk
      cases hk
    · rw [hd] at hk hne
      rw [skipNewline_cons_of_newline (t := n) hk] at hne
      exact absurd rfl hne
    · rw [hd] at hk hdrop hend
      rw [skipNewline_cons_of_newline (t := n) hk, ← hend (List.cons_ne_nil _ _)]
      exact (h.precedes hdrop).newline hk
  · rw [skipNewline_of_ne_newline (by rw [hk]; decide)] at hne
    exact absurd hk hne

end Stream

/-! ## Lines in reading order -/

/-- The lines of the rows. -/
def Table.lines (t : Table) : List Nat := t.rows.filterMap Row.line?

/-- The line of a step and of the rows of its table. -/
def Step.lines (s : Step) : List Nat := s.line :: (s.table.map Table.lines).getD []

/-- The lines of an entry, its steps and its examples. -/
def Entry.lines (e : Entry) : List Nat :=
  e.line :: (e.steps.flatMap Step.lines ++ (e.examples?.map Table.lines).getD [])

/-- The lines of all headings, steps and rows of a feature, in reading order. The heading of the
background has none. -/
def Feature.lines (f : Feature) : List Nat :=
  f.line :: ((f.background.getD []).flatMap Step.lines ++ f.scenarios.flatMap Entry.lines)

/-- `lines` are lines of tokens between `ts` and `rest`, each after the one before. -/
structure LinesFrom (ts rest : List Token) (lines : List Nat) : Prop where
  /-- Tokens are only left out at the front. -/
  suffix : rest <:+ ts
  /-- Each line is after the ones before. -/
  pairwise : lines.Pairwise (· < ·)
  /-- Each line is that of a token. -/
  exists_token : ∀ l ∈ lines, ∃ t ∈ ts, t.line = l
  /-- No line is before the first token. -/
  first_le : ∀ l ∈ lines, (peek ts).kind ≠ .eof ∧ (peek ts).line ≤ l
  /-- All lines are before the first token that is left. -/
  lt_next : ∀ l ∈ lines, (peek rest).kind = .eof ∨ l < (peek rest).line

namespace LinesFrom

variable {ts mid rest : List Token} {lines lines' : List Nat}

theorem skip (h : rest <:+ ts) : LinesFrom ts rest [] :=
  ⟨h, .nil, by simp, by simp, by simp⟩

theorem append (hts : Stream ts) (h : LinesFrom ts mid lines) (h' : LinesFrom mid rest lines') :
    LinesFrom ts rest (lines ++ lines') where
  suffix := h'.suffix.trans h.suffix
  pairwise := by
    refine List.pairwise_append.2 ⟨h.pairwise, h'.pairwise, fun l hl l' hl' => ?_⟩
    obtain ⟨hmid, hle⟩ := h'.first_le l' hl'
    rcases h.lt_next l hl with heof | hlt
    · exact absurd heof hmid
    · exact hlt.trans_le hle
  exists_token := by
    intro l hl
    rcases List.mem_append.1 hl with hl | hl
    · exact h.exists_token l hl
    · obtain ⟨t, ht, hline⟩ := h'.exists_token l hl
      exact ⟨t, h.suffix.subset ht, hline⟩
  first_le := by
    intro l hl
    rcases List.mem_append.1 hl with hl | hl
    · exact h.first_le l hl
    · obtain ⟨hmid, hle⟩ := h'.first_le l hl
      exact ⟨fun heof => hmid (hts.eof_of_suffix h.suffix heof),
        (hts.line_le h.suffix hmid).trans hle⟩
  lt_next := by
    intro l hl
    rcases List.mem_append.1 hl with hl | hl
    · have hmid := hts.of_suffix h.suffix
      by_cases hrest : (peek rest).kind = .eof
      · exact Or.inl hrest
      · rcases h.lt_next l hl with heof | hlt
        · exact absurd (hmid.eof_of_suffix h'.suffix heof) hrest
        · exact Or.inr (hlt.trans_le (hmid.line_le h'.suffix hrest))
    · exact h'.lt_next l hl

/-- The line of a token, when reading goes on after the end of a line. -/
theorem of_line {t : Token} (h : Stream (t :: ts)) (ht : t.kind ≠ .eof) (hmid : mid <:+ t :: ts) :
    LinesFrom (t :: ts) (skipNewline (dropLine mid)) [t.line] where
  suffix := ((skipNewline_suffix _).trans (dropLine_suffix mid)).trans hmid
  pairwise := List.pairwise_singleton _ _
  exists_token := fun _ hl => ⟨t, List.mem_cons_self, (List.mem_singleton.1 hl).symm⟩
  first_le := fun _ hl => ⟨ht, (List.mem_singleton.1 hl).ge⟩
  lt_next := fun _ hl => List.mem_singleton.1 hl ▸ h.line_lt_skipNewline hmid

end LinesFrom

/-- The path along the lines of a text. -/
def linePath : Path Nat where
  Passes ts rest lines := Stream ts → LinesFrom ts rest lines
  skip h _ := .skip h
  append := by
    intro ts mid rest lines lines' h h' hts
    have hlines := h hts
    exact hlines.append hts (h' (hts.of_suffix hlines.suffix))

/-! ## The lines of a feature -/

theorem Row.line?_of_rowReader {n : Nat} {ts rest : List Token} {row : Row}
    (h : rowReader (n + 1) ts = .ok (row, rest)) : row.line? = some (peek ts).line := by
  obtain ⟨hrow, rfl, -⟩ := rowReader_eq_ok.1 h
  rcases ts with _ | ⟨t, ts⟩
  · cases hrow.1
  · have ht : t.isCell = true := hrow.isCell_peek
    rw [takeLine_cons (Grammar.endsLine_of_isCell ht)]
    rfl

theorem linePath_rowReader {n : Nat} {ts rest : List Token} {row : Row}
    (h : rowReader (n + 1) ts = .ok (row, rest)) : linePath.Passes ts rest row.line?.toList := by
  intro hts
  rw [Row.line?_of_rowReader h]
  obtain ⟨hrow, -, rfl⟩ := rowReader_eq_ok.1 h
  rcases ts with _ | ⟨t, ts⟩
  · cases hrow.1
  · have ht : t.kind = .tableData := beq_iff_eq.1 hrow.isCell_peek
    exact .of_line hts (by rw [ht]; decide) List.suffix_rfl

theorem linePath_tableReader {ts rest : List Token} {table : Table}
    (h : tableReader ts = .ok (table, rest)) : linePath.Passes ts rest table.lines := by
  obtain ⟨n, hrows, -⟩ := readRows_of_tableReader h
  rw [Table.lines, List.filterMap_eq_flatMap_toList]
  exact linePath.loop (readRows_repeats _) linePath_rowReader hrows

theorem linePath_readTable? {ts rest : List Token} {table : Option Table}
    (h : Step.readTable? ts = .ok (table, rest)) :
    linePath.Passes ts rest ((table.map Table.lines).getD []) := by
  rcases Step.readTable?_cases h with ⟨rfl, rfl⟩ | ⟨t, rfl, htable⟩
  · exact linePath.skip List.suffix_rfl
  · exact linePath_tableReader htable

theorem linePath_heading {t : Token} {ts mid rest : List Token} {title : String}
    (hmid : mid <:+ ts) (h : readHeading mid = .ok (title, rest)) :
    linePath.Passes (t :: ts) rest [t.line] := by
  intro hts
  obtain ⟨hcolon, rfl⟩ := readHeading_cases h
  have hmid' := hmid.trans (List.suffix_cons t ts)
  refine .of_line hts (fun ht => ?_) ((List.tail_suffix mid).trans hmid')
  -- the colon is not the end token, so neither is the keyword
  rw [hts.eof_of_suffix hmid' ht] at hcolon
  cases hcolon

theorem linePath_step {keyword : Token} {ts rest : List Token} {step : Step}
    (hk : keyword.kind.isStepKeyword = true) (h : Step.read keyword ts = .ok (step, rest)) :
    linePath.Passes (keyword :: ts) rest step.lines := by
  obtain ⟨body, r₁, table, r₂, hline, htable, rfl, rfl⟩ := Step.read_cases h
  have hkeyword : linePath.Passes (keyword :: ts) (skipNewline r₁) [keyword.line] := by
    intro hts
    rw [StepText.rest_of_readLine hline]
    refine .of_line hts (fun heof => ?_) (List.suffix_cons keyword ts)
    rw [heof] at hk
    cases hk
  exact linePath.to_suffix (linePath.append hkeyword (linePath_readTable? htable))
    (Step.readBlock_suffix body.trim r₂)

/-- The lines of a feature. -/
def lineTrail : Trail Nat where
  toPath := linePath
  line l := [l]
  step := Step.lines
  table := Table.lines
  heading := linePath_heading
  step_read := linePath_step
  table_read := linePath_tableReader

/-! ## The shape of tables -/

/-- A table is a rectangle, one row on each line. -/
structure Table.WellShaped (t : Table) : Prop where
  /-- There is a row. -/
  rows_ne_nil : t.rows ≠ []
  /-- There is a column. -/
  width_pos : 0 < t.width
  /-- The rows have one width. -/
  length_eq : ∀ row ∈ t.rows, row.length = t.width
  /-- The cells of a row stand on one line, and the rows on consecutive lines. -/
  line_eq : ∃ first, t.firstLine? = some first ∧
    ∀ i row, t.rows[i]? = some row → ∀ cell ∈ row, cell.line = first + i

/-- Rows that were read have one width and stand on consecutive lines. -/
theorem Table.shape_of_readRows {n : Nat} {ts rest : List Token} {rows : List Row} (hts : Stream ts)
    (h : Table.readRows (some (n + 1)) ts = .ok (rows, rest)) (i : Nat) (row : Row)
    (hrow : rows[i]? = some row) :
    row.length = n + 1 ∧ ∀ cell ∈ row, cell.line = (peek ts).line + i := by
  induction ts using (readRows_repeats (n + 1)).induction generalizing rows i with
  | step ts ih =>
    rcases (readRows_repeats (n + 1)).eq_ok h with ⟨-, rfl, -⟩ | ⟨row₀, rows', mid, hmore⟩
    · cases hrow
    · obtain ⟨hk, hr, hmid, rfl⟩ := hmore
      obtain ⟨⟨hlength, hcells⟩, hrow₀, hrest⟩ := rowReader_eq_ok.1 hr
      rcases i with _ | i
      · -- the first row is the line at hand
        cases hrow
        rw [hrow₀, List.length_map]
        refine ⟨hlength, fun cell hcell => ?_⟩
        obtain ⟨t, ht, rfl⟩ := List.mem_map.1 hcell
        exact hts.line_of_mem_takeLine hcells t ht
      · -- there is another row, so reading goes on with the next line
        have hnext : (peek mid).kind ≠ .eof := by
          rcases (readRows_repeats (n + 1)).eq_ok hmid with ⟨-, rfl, -⟩ | ⟨_, _, _, hnext, -⟩
          · cases hrow
          · rw [hnext]
            decide
        have hsuffix : mid <:+ ts := by
          rw [hrest]
          exact (skipNewline_suffix _).trans (dropLine_suffix ts)
        obtain ⟨hlength', hlines⟩ := ih row₀ mid hk hr (hts.of_suffix hsuffix) hmid i hrow
        refine ⟨hlength', fun cell hcell => ?_⟩
        rw [hrest] at hnext hlines
        rw [hlines cell hcell, hts.line_skipNewline_dropLine hcells hnext]
        omega

theorem Table.wellShaped_of_tableReader {ts rest : List Token} {table : Table} (hts : Stream ts)
    (h : tableReader ts = .ok (table, rest)) : table.WellShaped := by
  obtain ⟨n, hread, hne⟩ := readRows_of_tableReader h
  have hshape := Table.shape_of_readRows hts hread
  obtain ⟨rows⟩ := table
  rcases rows with _ | ⟨row, rows⟩
  · exact absurd rfl hne
  · obtain ⟨hlength, hline⟩ := hshape 0 row rfl
    refine ⟨hne, ?_, fun row' hrow' => ?_, (peek ts).line, ?_, fun i row' hrow' => ?_⟩
    · change 0 < row.length
      rw [hlength]
      exact Nat.succ_pos n
    · obtain ⟨i, hi⟩ := List.mem_iff_getElem?.1 hrow'
      exact (hshape i row' hi).1.trans hlength.symm
    · rcases row with _ | ⟨cell, row⟩
      · cases hlength
      · exact congrArg some (hline cell List.mem_cons_self)
    · exact (hshape i row' hrow').2

/-- The tables of an entry, in reading order. -/
def Entry.tables (e : Entry) : List Table :=
  e.steps.flatMap (·.table.toList) ++ e.examples?.toList

/-- The tables of a feature, in reading order. -/
def Feature.tables (f : Feature) : List Table :=
  (f.background.getD []).flatMap (·.table.toList) ++ f.scenarios.flatMap Entry.tables

/-- The path along things that have a property, whenever they are read from a text. -/
def Path.all {β : Type} (p : β → Prop) : Path β where
  Passes ts rest items := rest <:+ ts ∧ (Stream ts → ∀ b ∈ items, p b)
  skip h := ⟨h, by simp⟩
  append := by
    rintro ts mid rest items items' ⟨hmid, hitems⟩ ⟨hrest, hitems'⟩
    refine ⟨hrest.trans hmid, fun hts => List.forall_mem_append.2 ⟨hitems hts, ?_⟩⟩
    exact hitems' (hts.of_suffix hmid)

theorem Table.passes_tableReader {ts rest : List Token} {table : Table}
    (h : tableReader ts = .ok (table, rest)) :
    (Path.all Table.WellShaped).Passes ts rest [table] := by
  refine ⟨Parsed.suffix_of_eq_ok (reads_tableReader.rest_suffix ts) h, fun hts t ht => ?_⟩
  rw [List.mem_singleton.1 ht]
  exact Table.wellShaped_of_tableReader hts h

/-- The tables of a feature. -/
def shapeTrail : Trail Table where
  toPath := .all Table.WellShaped
  line _ := []
  step s := s.table.toList
  table t := [t]
  heading := Path.skip_heading _
  step_read := by
    intro keyword ts step rest _ h
    rw [← List.flatMap_singleton' step.table.toList]
    exact Path.step_table _ Table.passes_tableReader h
  table_read := Table.passes_tableReader

theorem shapeTrail_ofFeature (f : Feature) : shapeTrail.ofFeature f = f.tables := by
  have hentry : ∀ e : Entry, shapeTrail.ofEntry e = e.tables := by
    intro e
    cases e <;> rfl
  rw [Trail.ofFeature, funext hentry]
  rfl

/-! ## Steps are never missing -/

theorem Step.ne_nil_of_readBlockOf {owner : StepOwner} {ts rest : List Token} {steps : List Step}
    (h : readBlockOf owner ts = .ok (steps, rest)) : steps ≠ [] := by
  obtain ⟨_, _, _, _, -, -, rfl⟩ := readBlockOf_cases h
  exact List.cons_ne_nil _ _

theorem Feature.background_ne_nil {ts rest : List Token} {background : Option (List Step)}
    (h : readBackground? ts = .ok (background, rest)) : ∀ steps ∈ background, steps ≠ [] := by
  rcases readBackground?_cases h with ⟨rfl, -⟩ | ⟨_, _, steps, rfl, -, hsteps⟩
  · simp
  · simpa using Step.ne_nil_of_readBlockOf hsteps

theorem Entry.steps_ne_nil {ts rest : List Token} {entry : Entry}
    (h : readRound ts = .ok (entry, rest)) : entry.steps ≠ [] := by
  obtain ⟨tags, mid, -, hround⟩ := Parsed.andThen_eq_ok.1 h
  obtain ⟨_, _, _, _, _, _, _, _, _, _, _, hsteps, _⟩ := readKeyworded_cases hround
  exact Step.ne_nil_of_readBlockOf hsteps

/-- The background and the entries of a feature have steps. -/
theorem Feature.steps_ne_nil {ts rest : List Token} {feature : Feature}
    (h : Feature.read ts = .ok (feature, rest)) :
    (∀ steps ∈ feature.background, steps ≠ []) ∧ ∀ e ∈ feature.scenarios, e.steps ≠ [] := by
  obtain ⟨_, _, _, _, _, -, -, -, hback, hentries⟩ := Feature.read_cases h
  refine ⟨Feature.background_ne_nil hback, ?_⟩
  exact Entry.readAll_repeats.forall_mem Entry.steps_ne_nil hentries

/-! ## Documents -/

section Parse

variable {source : String} {set : FeatureSet} {f : Feature}

theorem Feature.linesFrom_of_parse (h : parse source = .ok set) (hf : f ∈ set.features) :
    ∃ rest, LinesFrom (tokens source) rest f.lines := by
  obtain ⟨rest, hread⟩ := exists_read_of_mem h hf
  exact ⟨rest, lineTrail.passes_feature hread (stream_tokens source)⟩

/-- The lines of a document strictly increase. -/
theorem Feature.pairwise_lines_of_parse (h : parse source = .ok set) (hf : f ∈ set.features) :
    f.lines.Pairwise (· < ·) := by
  obtain ⟨rest, hlines⟩ := Feature.linesFrom_of_parse h hf
  exact hlines.pairwise

/-- The tables of a document are well shaped. -/
theorem Feature.wellShaped_of_parse (h : parse source = .ok set) (hf : f ∈ set.features) :
    ∀ t ∈ f.tables, t.WellShaped := by
  obtain ⟨rest, hread⟩ := exists_read_of_mem h hf
  rw [← shapeTrail_ofFeature]
  exact (shapeTrail.passes_feature hread).2 (stream_tokens source)

end Parse

/-- **The parts of a document that is read stand in reading order, and its tables are well shaped.**
The lines of its headings, steps and rows are strictly increasing lines of the text. The background
and all entries have steps, and the tables are rectangles with one row on each line. -/
theorem reading_order_of_parse {source : String} {set : FeatureSet} (h : parse source = .ok set) :
    ∃ feature, set.features = [feature] ∧
      feature.lines.Pairwise (· < ·) ∧
      (∀ l ∈ feature.lines, 1 ≤ l ∧ l ≤ 1 + source.toList.count '\n') ∧
      (∀ steps ∈ feature.background, steps ≠ []) ∧
      (∀ e ∈ feature.scenarios, e.steps ≠ []) ∧
      ∀ t ∈ feature.tables, t.WellShaped := by
  obtain ⟨feature, rest, rfl, hfeature, -⟩ := exists_read_of_parse h
  have hmem : feature ∈ [feature] := List.mem_singleton_self feature
  obtain ⟨hback, hentries⟩ := Feature.steps_ne_nil hfeature
  refine ⟨feature, rfl, Feature.pairwise_lines_of_parse h hmem, fun l hl => ?_, hback, hentries,
    Feature.wellShaped_of_parse h hmem⟩
  obtain ⟨rest, hlines⟩ := Feature.linesFrom_of_parse h hmem
  obtain ⟨t, ht, rfl⟩ := hlines.exists_token l hl
  exact Cursor.line_of_mem_tokens ht

/-- A string over two lines, a block of text over three and a table that ends with the text: later
steps and rows are on later lines all the same. -/
theorem reading_order_multiline : ∃ feature : Feature,
    parse ("Feature: f\nBackground:\nGiven \"a\nb\" x\n| c |\n| d |\n" ++
      "Scenario Outline: o\nWhen <p>\n\"\"\"\nt\n\"\"\"\nExamples:\n| p |\n| q |") =
      .ok ⟨[feature]⟩ ∧
    feature.lines = [1, 3, 5, 6, 7, 8, 13, 14] ∧ feature.lines.Pairwise (· < ·) ∧
    feature.tables.length = 2 ∧ ∀ t ∈ feature.tables, t.WellShaped := by
  have h : parse ("Feature: f\nBackground:\nGiven \"a\nb\" x\n| c |\n| d |\n" ++
      "Scenario Outline: o\nWhen <p>\n\"\"\"\nt\n\"\"\"\nExamples:\n| p |\n| q |") =
      .ok ⟨[⟨"f", 1, [], [], some [⟨⟨.step .given, "Given", 3⟩, "\x7b\x7bs\x7d\x7d x", ["a\nb"],
        some ⟨[[⟨"c", 5⟩], [⟨"d", 6⟩]]⟩, 3⟩], [.outline ⟨⟨"o", 7, [], [⟨⟨.step .when, "When", 8⟩,
        "\x7b\x7b<p>\x7d\x7d\n\x7b\x7bs\x7d\x7d", ["t"], none, 8⟩]⟩,
        ⟨[[⟨"p", 13⟩], [⟨"q", 14⟩]]⟩⟩]⟩]⟩ := by
    decide +kernel
  obtain ⟨feature, hfeature, hlines, -, -, -, htables⟩ := reading_order_of_parse h
  obtain rfl := List.singleton_inj.1 hfeature
  exact ⟨_, h, rfl, hlines, rfl, htables⟩

end FeatureDoc
