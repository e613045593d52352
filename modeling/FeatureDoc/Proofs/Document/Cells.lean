import FeatureDoc.Proofs.Document.Lines
import FeatureDoc.Proofs.Token.Alphabet

/-!
# The cells of a document

Every cell of a table is a token of the document, so its text is one that can stand between two
pipes.

* `IsCellText cs` says which texts these are. The cells among the tokens of a text have one
  (`isCellText_of_mem_tokens`).
* `cellTrail` collects the cells of a feature with the tokens that they were read from.
* `isCellText_of_parse` is the main statement.
-/

namespace FeatureDoc

/-- A text that a cell can have. -/
structure IsCellText (cs : List Char) : Prop where
  /-- A cell goes up to the next pipe or line end. -/
  stop : ∀ c ∈ cs, c ≠ '|' ∧ c ≠ '\n'
  /-- A cell is trimmed. -/
  trims : Text.Trims cs cs

/-! ## Cells among the tokens -/

/-- **A cell of a text goes up to a pipe or a line end and is trimmed.** -/
theorem isCellText_of_mem_tokens {source : String} {t : Token} (ht : t ∈ tokens source)
    (hkind : t.kind = .tableData) : IsCellText t.literal.toList := by
  obtain ⟨-, hallows⟩ := Cursor.allows_of_mem_tokens ht
  rw [hkind] at hallows
  obtain ⟨htrims, hpipe, hline⟩ := hallows
  exact ⟨fun c hc => ⟨fun heq => hpipe (heq ▸ hc), fun heq => hline (heq ▸ hc)⟩, htrims⟩

/-! ## From tokens to tables -/

/-- All cells of a table, row by row. -/
def Table.cells (t : Table) : List Cell := t.rows.flatten

/-- The path along cells that are tokens. -/
def cellPath : Path Cell where
  Passes ts rest cells := rest <:+ ts ∧
    ∀ cell ∈ cells, ∃ t ∈ ts, t.kind = .tableData ∧ cell = .ofToken t
  skip h := ⟨h, by simp⟩
  append := by
    rintro ts mid rest cells cells' ⟨hmid, hcells⟩ ⟨hrest, hcells'⟩
    refine ⟨hrest.trans hmid, List.forall_mem_append.2 ⟨hcells, fun cell hcell => ?_⟩⟩
    obtain ⟨t, ht, hcell⟩ := hcells' cell hcell
    exact ⟨t, hmid.subset ht, hcell⟩

theorem cellPath_rowReader {n : ℕ} {ts rest : List Token} {row : Row}
    (h : rowReader (n + 1) ts = .ok (row, rest)) : cellPath.Passes ts rest row := by
  obtain ⟨hrow, rfl, rfl⟩ := rowReader_eq_ok.1 h
  refine ⟨(skipNewline_suffix _).trans (dropLine_suffix ts), fun cell hcell => ?_⟩
  obtain ⟨t, ht, rfl⟩ := List.mem_map.1 hcell
  exact ⟨t, (List.takeWhile_sublist _).subset ht, beq_iff_eq.1 (hrow.2 t ht), rfl⟩

theorem cellPath_tableReader {ts rest : List Token} {table : Table}
    (h : tableReader ts = .ok (table, rest)) : cellPath.Passes ts rest table.cells := by
  obtain ⟨n, hrows, -⟩ := readRows_of_tableReader h
  rw [Table.cells, ← List.flatMap_id']
  exact cellPath.loop (readRows_repeats _) cellPath_rowReader hrows

/-- The cells of a feature. -/
def cellTrail : Trail Cell where
  toPath := cellPath
  line _ := []
  step s := s.table.toList.flatMap Table.cells
  table := Table.cells
  heading := cellPath.skip_heading
  step_read := fun _ => cellPath.step_table cellPath_tableReader
  table_read := cellPath_tableReader

theorem cellTrail_ofFeature (f : Feature) :
    cellTrail.ofFeature f = f.tables.flatMap Table.cells := by
  have hentry : ∀ e : Entry, cellTrail.ofEntry e = e.tables.flatMap Table.cells := by
    intro e
    rw [Entry.tables, List.flatMap_append, List.flatMap_assoc]
    cases e with
    | scenario s => rfl
    | outline o => simp [Trail.ofEntry, cellTrail, Entry.examples?]
  rw [Trail.ofFeature, funext hentry, Feature.tables, List.flatMap_append, List.flatMap_assoc,
    List.flatMap_assoc]
  rfl

/-- **Every cell of a document that is read has a text that a cell can have.** -/
theorem isCellText_of_parse {source : String} {set : FeatureSet} {f : Feature} {t : Table}
    (h : parse source = .ok set) (hf : f ∈ set.features) (ht : t ∈ f.tables) :
    ∀ cell ∈ t.cells, IsCellText cell.literal.toList := by
  obtain ⟨rest, hread⟩ := exists_read_of_mem h hf
  obtain ⟨-, hcells⟩ := cellTrail.passes_feature hread
  rw [cellTrail_ofFeature] at hcells
  intro cell hcell
  obtain ⟨token, htoken, hkind, rfl⟩ := hcells cell (List.mem_flatMap.2 ⟨t, ht, hcell⟩)
  exact isCellText_of_mem_tokens htoken hkind

end FeatureDoc
