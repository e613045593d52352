import FeatureDoc.Proofs.Document.Cells
import FeatureDoc.Proofs.Token.LineEnd
import FeatureDoc.Report.Text

/-!
# Tables of the text report

The rows that the text report prints for a table of a document can be read back. The cells of a row
share their pipes and have a space on either side, which is where a cell may be empty, too.

* `tableTokens rows line` are the tokens of rows of texts. `Table.read_tableTokens` reads the table
  of these texts from them.
* `Cursor.tokens_rowChars` scans a printed row, whatever comes after it.
* `TextReport.table_reads_back` is the main statement.
-/

namespace FeatureDoc

/-! ## The tokens of a table -/

/-- The tokens of a row of texts, with the end of its line. -/
def rowTokens (cells : List String) (line : ℕ) : List Token :=
  cells.map (fun s => ⟨.tableData, s, line⟩) ++ [⟨.newline, "\n", line⟩]

/-- The tokens of rows of texts, one on each line from `line` on. -/
def tableTokens (rows : List (List String)) (line : ℕ) : List Token :=
  (rows.zipIdx line).flatMap fun (cells, line) => rowTokens cells line

@[simp] theorem tableTokens_cons (cells : List String) (rows : List (List String)) (line : ℕ) :
    tableTokens (cells :: rows) line = rowTokens cells line ++ tableTokens rows (line + 1) := by
  simp [tableTokens, List.zipIdx_cons]

namespace Table

@[simp] theorem rows_ofLiterals_cons (cells : List String) (rows : List (List String)) (line : ℕ) :
    (ofLiterals (cells :: rows) line).rows =
      cells.map (⟨·, line⟩) :: (ofLiterals rows (line + 1)).rows := by
  simp [ofLiterals, List.zipIdx_cons]

theorem literals_ofLiterals (rows : List (List String)) (line : ℕ) :
    (ofLiterals rows line).literals = rows := by
  induction rows generalizing line with
  | nil => rfl
  | cons cells rows ih =>
    simp only [literals, rows_ofLiterals_cons, List.map_cons, List.map_map] at ih ⊢
    rw [ih]
    exact congrArg (· :: rows) (List.map_id cells)

section Read

variable {n line : ℕ} {cells : List String} {rows : List (List String)} {rest : List Token}

theorem isCell_of_mem_row {t : Token}
    (ht : t ∈ cells.map (fun s => (⟨.tableData, s, line⟩ : Token))) : t.isCell = true := by
  obtain ⟨s, -, rfl⟩ := List.mem_map.1 ht
  rfl

theorem rowReader_rowTokens (h : cells.length = n + 1) :
    rowReader (n + 1) (rowTokens cells line ++ rest) = .ok (cells.map (⟨·, line⟩), rest) := by
  have hcells : ∀ t ∈ cells.map (fun s => (⟨.tableData, s, line⟩ : Token)),
      t.kind.endsLine = false := fun t ht => Grammar.endsLine_of_isCell (isCell_of_mem_row ht)
  rw [rowReader_eq_ok, rowTokens, List.append_assoc, takeLine_append hcells rfl,
    dropLine_append hcells rfl]
  refine ⟨⟨by rw [List.length_map, h], fun t ht => isCell_of_mem_row ht⟩, ?_, rfl⟩
  simp [Cell.ofToken]

theorem readRows_tableTokens (h : ∀ cells ∈ rows, cells.length = n + 1)
    (hrest : (peek rest).kind ≠ .tableData) :
    readRows (some (n + 1)) (tableTokens rows line ++ rest) =
      .ok ((ofLiterals rows line).rows, rest) := by
  induction rows generalizing line with
  | nil => exact (readRows_repeats (n + 1)).done hrest
  | cons cells rows ih =>
    obtain ⟨hcells, hrows⟩ := List.forall_mem_cons.1 h
    rw [tableTokens_cons, rows_ofLiterals_cons, List.append_assoc]
    refine (readRows_repeats (n + 1)).cons_ok ?_ (rowReader_rowTokens hcells) (ih hrows)
    rcases cells with _ | ⟨s, cells⟩
    · cases hcells
    · rfl

/-- **The tokens of a table are read as that table**, if its rows have one width. -/
theorem read_tableTokens (hne : rows ≠ []) (h : ∀ cells ∈ rows, cells.length = n + 1)
    (hrest : (peek rest).kind ≠ .tableData) :
    read (tableTokens rows line ++ rest) = .ok (ofLiterals rows line, rest) := by
  have hwidth : (peek (tableTokens rows line ++ rest)).isCell = true ∧
      ((tableTokens rows line ++ rest).takeWhile Token.isCell).length = n + 1 := by
    obtain ⟨cells, rows, rfl⟩ := List.exists_cons_of_ne_nil hne
    have hcells := h cells List.mem_cons_self
    rw [tableTokens_cons, rowTokens, List.append_assoc, List.append_assoc]
    constructor
    · rcases cells with _ | ⟨s, cells⟩
      · cases hcells
      · rfl
    · rw [List.takeWhile_append_of_pos fun t ht => isCell_of_mem_row ht]
      simpa [Token.isCell] using hcells
  rw [read, readRows_none_eq hwidth.1, hwidth.2, readRows_tableTokens h hrest]
  rfl

end Read

end Table

/-! ## Scanning a row -/

/-- The characters of a printed row. -/
def rowChars (cells : List String) : List Char :=
  cells.flatMap (fun s => '|' :: ' ' :: (s.toList ++ [' '])) ++ ['|']

theorem rowChars_cons (s : String) (cells : List String) :
    rowChars (s :: cells) = '|' :: ' ' :: (s.toList ++ ' ' :: rowChars cells) := by
  simp [rowChars]

/-- A text between two pipes, with a space on either side. -/
theorem IsCellText.cellAs {body m : List Char} (h : IsCellText body) (hm : m.head? = some '|') :
    ∃ raw, Lexeme.CellAs (' ' :: (body ++ ' ' :: m)) ⟨.tableData, body, raw⟩ m ∧
      raw.count '\n' = 0 := by
  have hstop : ∀ c ∈ m.head?, c = '|' ∨ c = '\n' := by
    intro c hc
    rw [hm] at hc
    exact Or.inl (Option.some.inj hc).symm
  have hline : body.count '\n' = 0 := List.count_eq_zero.2 fun hmem => (h.stop _ hmem).2 rfl
  by_cases hnil : body = []
  · -- the two spaces stand before an empty cell
    have hform : Lexeme.CellAs ([' ', ' '] ++ ([] ++ m)) ⟨.tableData, [], _⟩ m :=
      .cell (by simp [isIndent]) nofun (List.forall_mem_nil _) hstop fun _ => hm
    subst hnil
    exact ⟨_, hform, rfl⟩
  · have hform : Lexeme.CellAs ([' '] ++ ((body ++ [' ']) ++ m))
        ⟨.tableData, Text.trim (body ++ [' ']), '|' :: [' '] ++ (body ++ [' '])⟩ m := by
      refine .cell (by simp [isIndent]) (fun c hc => ?_) ?_ hstop (by simp)
      · rw [List.head?_append_of_ne_nil _ hnil] at hc
        exact isIndent_of_isSpace (h.trims.head c hc)
      · exact List.forall_mem_append.2 ⟨h.stop, by simp⟩
    have hspace : ∀ c ∈ [' '], Text.isSpace c = true := by
      intro c hc
      rw [List.mem_singleton.1 hc]
      decide
    rw [Text.trim_append_of_isSpace hspace, h.trims.trim_eq] at hform
    refine ⟨_, by simpa using hform, ?_⟩
    simp [List.count_append, hline]

namespace Cursor

theorem next_cell {body m : List Char} (h : IsCellText body) (hm : m.head? = some '|') (line : ℕ) :
    (⟨'|' :: ' ' :: (body ++ ' ' :: m), line⟩ : Cursor).next =
      (⟨.tableData, String.ofList body, line⟩, ⟨m, line⟩) := by
  obtain ⟨raw, hform, hraw⟩ := h.cellAs hm
  have hread : Lexeme.read ('|' :: ' ' :: (body ++ ' ' :: m)) = ⟨.tableData, body, raw⟩ :=
    hform.cell_eq
  rw [next_of_read (c := ⟨'|' :: ' ' :: (body ++ ' ' :: m), line⟩) hread hform.raw_append, hraw]
  rfl

theorem head?_rowChars_append (cells : List String) (m : List Char) :
    (rowChars cells ++ m).head? = some '|' := by
  rcases cells with _ | ⟨s, cells⟩
  · rfl
  · rfl

/-- **A printed row is scanned cell by cell**, up to the end of its line. -/
theorem tokens_rowChars {cells : List String} (h : ∀ s ∈ cells, IsCellText s.toList)
    (m : List Char) (line : ℕ) :
    (⟨rowChars cells ++ '\n' :: m, line⟩ : Cursor).tokens =
      rowTokens cells line ++ (⟨m, line + 1⟩ : Cursor).tokens := by
  induction cells with
  | nil => exact tokens_of_ne_eof (c := ⟨'|' :: '\n' :: m, line⟩) nofun
  | cons s cells ih =>
    obtain ⟨hs, hcells⟩ := List.forall_mem_cons.1 h
    have htext : rowChars (s :: cells) ++ '\n' :: m =
        '|' :: ' ' :: (s.toList ++ ' ' :: (rowChars cells ++ '\n' :: m)) := by
      simp [rowChars_cons]
    have hnext := next_cell hs (head?_rowChars_append cells ('\n' :: m)) line
    rw [htext, tokens_of_ne_eof (by rw [hnext]; exact nofun), hnext, ih hcells,
      String.ofList_toList]
    rfl

/-- Printed rows at some depth are scanned row by row. -/
theorem tokens_rows {rows : List (List String)}
    (h : ∀ cells ∈ rows, ∀ s ∈ cells, IsCellText s.toList) {indent : List Char}
    (hindent : ∀ c ∈ indent, isIndent c = true) (line : ℕ) :
    (⟨rows.flatMap fun cells => indent ++ (rowChars cells ++ ['\n']), line⟩ : Cursor).tokens =
      tableTokens rows line ++ [⟨.eof, "", line + rows.length⟩] := by
  induction rows generalizing line with
  | nil => exact tokens_of_eof rfl
  | cons cells rows ih =>
    obtain ⟨hcells, hrows⟩ := List.forall_mem_cons.1 h
    rw [List.flatMap_cons, List.append_assoc]
    set more := rows.flatMap fun cells => indent ++ (rowChars cells ++ ['\n']) with hmore
    have hrow : (⟨indent ++ (rowChars cells ++ ['\n'] ++ more), line⟩ : Cursor).tokens =
        (⟨rowChars cells ++ '\n' :: more, line⟩ : Cursor).tokens := by
      refine tokens_congr ?_ ?_
      · rfl
      rw [List.dropWhile_append_of_pos hindent, List.append_assoc]
      rfl
    rw [hrow, tokens_rowChars hcells, hmore, ih hrows, tableTokens_cons, List.append_assoc,
      List.length_cons, Nat.add_right_comm, Nat.add_assoc]

end Cursor

/-! ## Printing -/

namespace TextReport

theorem toList_rowText {row : Row} (h : row ≠ []) :
    (rowText row).toList = rowChars (row.map Cell.literal) := by
  have hcells : ∀ (cell : Cell) (row : Row),
      "| ".toList ++ " | ".toList.intercalate ((cell :: row).map fun c => c.literal.toList) ++
        " |".toList = rowChars ((cell :: row).map Cell.literal) := by
    intro cell row
    induction row generalizing cell with
    | nil => simp [rowChars]
    | cons cell' row ih =>
      rw [List.map_cons (f := Cell.literal), rowChars_cons, ← ih cell', List.map_cons,
        List.map_cons, List.intercalate_cons_cons]
      simp
  obtain ⟨cell, row, rfl⟩ := List.exists_cons_of_ne_nil h
  rw [← hcells, rowText, String.toList_append, String.toList_append, String.toList_intercalate,
    List.map_map]
  rfl

theorem toList_concat_table {depth : ℕ} {t : Table} (h : ∀ row ∈ t.rows, row ≠ []) :
    (Chunk.concat (table depth t)).toList = t.literals.flatMap fun cells =>
      List.replicate (2 * depth) ' ' ++ (rowChars cells ++ ['\n']) := by
  rw [Chunk.concat, String.toList_join, table, List.map_map, List.flatMap_map, Table.literals,
    List.flatMap_map]
  refine List.flatMap_congr fun row hrow => ?_
  rw [← toList_rowText (h row hrow)]
  simp [line]

/-- The tokens of a printed table, if its cells could be cells of a document. -/
theorem tokens_table {t : Table} (hne : ∀ row ∈ t.rows, row ≠ [])
    (hcells : ∀ cell ∈ t.cells, IsCellText cell.literal.toList) (depth : ℕ) :
    tokens (Chunk.concat (table depth t)) =
      tableTokens t.literals 1 ++ [⟨.eof, "", t.size + 1⟩] := by
  have hindent : ∀ c ∈ List.replicate (2 * depth) ' ', isIndent c = true := by
    intro c hc
    rw [List.eq_of_mem_replicate hc]
    rfl
  have htexts : ∀ cells ∈ t.literals, ∀ s ∈ cells, IsCellText s.toList := by
    intro cells htext s hs
    obtain ⟨row, hrow, rfl⟩ := List.mem_map.1 htext
    obtain ⟨cell, hcell, rfl⟩ := List.mem_map.1 hs
    exact hcells cell (List.mem_flatten.2 ⟨row, hrow, hcell⟩)
  rw [tokens, Cursor.ofString, toList_concat_table hne, Cursor.tokens_rows htexts hindent,
    Table.literals, List.length_map, Nat.add_comm, Table.size]

/-- **The tables of a document can be read back from the text report.** Scanned on its own, what is
printed for a table at any depth gives one token for each cell, with the text of the cell, a line
end after each row and the end token after the last one. Read as a table, this has the same
cells. -/
theorem table_reads_back {source : String} {set : FeatureSet} {f : Feature} {t : Table}
    (h : parse source = .ok set) (hf : f ∈ set.features) (ht : t ∈ f.tables) (depth : ℕ) :
    tokens (Chunk.concat (table depth t)) =
        tableTokens t.literals 1 ++ [⟨.eof, "", t.size + 1⟩] ∧
      ∃ t', Table.read (tokens (Chunk.concat (table depth t))) =
          .ok (t', [⟨.eof, "", t.size + 1⟩]) ∧ t'.literals = t.literals := by
  have hcells := isCellText_of_parse h hf ht
  have hshape : t.WellShaped := Feature.wellShaped_of_parse h hf t ht
  obtain ⟨n, hwidth⟩ := Nat.exists_eq_succ_of_ne_zero hshape.width_pos.ne'
  have hlength : ∀ row ∈ t.rows, row.length = n + 1 := fun row hrow =>
    (hshape.length_eq row hrow).trans hwidth
  have hne : ∀ row ∈ t.rows, row ≠ [] := by
    rintro _ hrow rfl
    cases hlength [] hrow
  have htokens := tokens_table hne hcells depth
  refine ⟨htokens, .ofLiterals t.literals 1, ?_, Table.literals_ofLiterals _ _⟩
  rw [htokens]
  refine Table.read_tableTokens (n := n) ?_ ?_ nofun
  · rw [Table.literals, ne_eq, List.map_eq_nil_iff]
    exact hshape.rows_ne_nil
  · rw [Table.literals, List.forall_mem_map]
    exact fun row hrow => (List.length_map _).trans (hlength row hrow)

/-- An empty cell, one that holds a no-break space only, and one that starts as a comment does. -/
theorem table_reads_back_empty_cells : ∃ source set f t,
    source = "Feature: f\nScenario Outline: o\nGiven x\n||\u00a0|\n|a b|#|\nExamples:\n|n|\n||" ∧
    parse source = .ok set ∧ f ∈ set.features ∧ t ∈ f.tables ∧
    t.literals = [["", ""], ["a b", "#"]] ∧
    Chunk.concat (table 3 t) = "      |  |  |\n      | a b | # |\n" ∧
    ∃ t', Table.read (tokens (Chunk.concat (table 3 t))) = .ok (t', [⟨.eof, "", 3⟩]) ∧
      t'.literals = [["", ""], ["a b", "#"]] := by
  have h : parse
      "Feature: f\nScenario Outline: o\nGiven x\n||\u00a0|\n|a b|#|\nExamples:\n|n|\n||" =
      .ok ⟨[⟨"f", 1, [], [], none, [.outline ⟨⟨"o", 2, [], [⟨⟨.step .given, "Given", 3⟩, "x", [],
        some ⟨[[⟨"", 4⟩, ⟨"", 4⟩], [⟨"a b", 5⟩, ⟨"#", 5⟩]]⟩, 3⟩]⟩,
        ⟨[[⟨"n", 7⟩], [⟨"", 8⟩]]⟩⟩]⟩]⟩ := by
    decide +kernel
  obtain ⟨-, t', hread, hliterals⟩ :=
    table_reads_back h List.mem_cons_self List.mem_cons_self 3
  exact ⟨_, _, _, _, rfl, h, List.mem_cons_self, List.mem_cons_self, rfl, by decide +kernel, t',
    hread, hliterals⟩

end TextReport

end FeatureDoc
