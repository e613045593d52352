import FeatureDoc.Proofs.Outline.Substitution

/-!
# Expanding row by row

An outline is expanded one data row at a time, and what a row gives depends on the header, on the
row and on nothing else of the examples.

* `Table.records_eq_ok_iff` says when the rows of a table can be read by column name;
  `Outline.expand_of_length_eq` is the expansion once they can.
* `Outline.expand_eq_ok_iff` is the main statement: the scenarios are those of the data rows, in
  order, and every data row is as wide as the header.
-/

namespace FeatureDoc

/-! ## Rows by column name -/

/-- The values of a row by the names in the header. -/
def Record.ofRow (header row : Row) : Record :=
  ⟨(header.map Cell.literal).zip (row.map Cell.literal)⟩

namespace Table

variable {t : Table}

theorem columnNames_eq_ok_iff {names : List String} :
    t.columnNames = .ok names ↔ ∃ header, t.header? = some header ∧
      names = header.map Cell.literal := by
  unfold columnNames
  cases t.header? with
  | none => exact ⟨fun h => (nomatch h), fun ⟨_, h, _⟩ => (nomatch h)⟩
  | some header => simp [eq_comm]

theorem checkWidth_eq_ok_iff {index : Nat} {row row' : Row} :
    t.checkWidth index row = .ok row' ↔ row.length = t.width ∧ row' = row := by
  unfold checkWidth
  split
  · next h => simp [h, eq_comm]
  · next h => simp [h]

theorem width_of_header? {header : Row} (h : t.header? = some header) :
    t.width = header.length := by
  rw [width, h]
  rfl

/-- One row by column name. -/
theorem checkWidth_bind_eq_ok_iff {header : Row} (h : t.header? = some header) {index : Nat}
    {row : Row} {r : Record} :
    (t.checkWidth index row).bind (fun row => Except.ok (Record.ofRow header row)) = .ok r ↔
      row.length = header.length ∧ Record.ofRow header row = r := by
  change (t.checkWidth index row >>= _) = _ ↔ _
  simp only [bind_eq_ok_iff, checkWidth_eq_ok_iff, width_of_header? h]
  constructor
  · rintro ⟨_, ⟨hwidth, rfl⟩, heq⟩
    exact ⟨hwidth, Except.ok.inj heq⟩
  · rintro ⟨hwidth, rfl⟩
    exact ⟨row, ⟨hwidth, rfl⟩, rfl⟩

/-- The data rows can be read by column name if and only if there is a header and they are as wide
as it is. -/
theorem records_eq_ok_iff {rs : List Record} :
    t.records = .ok rs ↔ ∃ header, t.header? = some header ∧
      (∀ row ∈ t.dataRows, row.length = header.length) ∧ rs = t.dataRows.map (.ofRow header) := by
  have hrows : ∀ header : Row, t.header? = some header →
      ((t.dataRows.zipIdx 1).mapM (fun x =>
        (t.checkWidth x.2 x.1).bind fun row => .ok (Record.ofRow header row)) = .ok rs ↔
      (∀ row ∈ t.dataRows, row.length = header.length) ∧
        rs = t.dataRows.map (.ofRow header)) := by
    intro header hheader
    rw [mapM_eq_ok_iff]
    simp only [checkWidth_bind_eq_ok_iff hheader]
    -- the numbers of the rows matter for errors only
    rw [← List.forall₂_map_left_iff (f := Prod.fst)
      (R := fun row r => row.length = header.length ∧ Record.ofRow header row = r),
      List.zipIdx_map_fst, List.forall₂_and_left, ← List.forall₂_map_left_iff
      (f := Record.ofRow header), List.forall₂_eq_eq_eq, eq_comm (a := rs)]
  unfold Table.records
  rw [bind_eq_ok_iff]
  constructor
  · rintro ⟨names, hnames, h⟩
    obtain ⟨header, hheader, rfl⟩ := columnNames_eq_ok_iff.1 hnames
    exact ⟨header, hheader, (hrows header hheader).1 h⟩
  · rintro ⟨header, hheader, h⟩
    exact ⟨_, columnNames_eq_ok_iff.2 ⟨header, hheader, rfl⟩, (hrows header hheader).2 h⟩

end Table

/-! ## Expansion -/

namespace Outline

/-- A row as wide as the header gives a scenario. -/
def Gives (o : Outline) (header row : Row) (sc : Scenario) : Prop :=
  row.length = header.length ∧
    o.instantiate (header.map Cell.literal) row (.ofRow header row) = .ok sc

/-- Where the data rows are as wide as the header, one scenario after the other is made of them. -/
theorem expand_of_length_eq {o : Outline} {header : Row} (h : o.examples.header? = some header)
    (hwidth : ∀ row ∈ o.examples.dataRows, row.length = header.length) :
    o.expand = o.examples.dataRows.mapM fun row =>
      o.instantiate (header.map Cell.literal) row (.ofRow header row) := by
  have hcolumns : o.examples.columnNames = .ok (header.map Cell.literal) :=
    Table.columnNames_eq_ok_iff.2 ⟨header, h, rfl⟩
  have hrecords : o.examples.records = .ok (o.examples.dataRows.map (.ofRow header)) :=
    Table.records_eq_ok_iff.2 ⟨header, h, hwidth, rfl⟩
  have hzip : o.examples.dataRows.zip (o.examples.dataRows.map (.ofRow header)) =
      o.examples.dataRows.map fun row => (row, Record.ofRow header row) := by
    simpa using List.zip_map' (f := id) (g := Record.ofRow header) (l := o.examples.dataRows)
  rw [expand, hcolumns, hrecords]
  change (o.examples.dataRows.zip _).mapM _ = _
  rw [hzip, List.mapM_map]
  rfl

/-- **An outline is expanded row by row.** -/
theorem expand_eq_ok_iff {o : Outline} {scenarios : List Scenario} :
    o.expand = .ok scenarios ↔ ∃ header, o.examples.header? = some header ∧
      List.Forall₂ (o.Gives header) o.examples.dataRows scenarios := by
  unfold Gives
  simp only [List.forall₂_and_left]
  constructor
  · intro h
    obtain ⟨columns, -, hexpand⟩ := bind_eq_ok_iff.1 h
    obtain ⟨records, hrecords, -⟩ := bind_eq_ok_iff.1 hexpand
    obtain ⟨header, hheader, hwidth, -⟩ :=
      Table.records_eq_ok_iff.1 (mapError_eq_ok_iff.1 hrecords)
    rw [expand_of_length_eq hheader hwidth, mapM_eq_ok_iff] at h
    exact ⟨header, hheader, hwidth, h⟩
  · rintro ⟨header, hheader, hwidth, h⟩
    rw [expand_of_length_eq hheader hwidth, mapM_eq_ok_iff]
    exact h

/-- The scenario of a row stands on the line of the row. -/
theorem Gives.line {o : Outline} {header row : Row} {sc : Scenario} (h : o.Gives header row sc) :
    sc.line = row.line?.getD o.line := by
  obtain ⟨steps, -, heq⟩ := bind_eq_ok_iff.1 h.2
  cases heq
  rfl

/-- The scenario of a row has the tags of the outline. -/
theorem Gives.tags {o : Outline} {header row : Row} {sc : Scenario} (h : o.Gives header row sc) :
    sc.tags = o.tags := by
  obtain ⟨steps, -, heq⟩ := bind_eq_ok_iff.1 h.2
  cases heq
  rfl

/-- All scenarios of an outline have its tags. -/
theorem tags_of_expand {o : Outline} {scenarios : List Scenario} (h : o.expand = .ok scenarios) :
    ∀ sc ∈ scenarios, sc.tags = o.tags := by
  obtain ⟨header, -, hrows⟩ := expand_eq_ok_iff.1 h
  intro sc hsc
  obtain ⟨row, -, hgives⟩ : ∃ row ∈ o.examples.dataRows, o.Gives header row sc :=
    exists_of_mem_forall₂ hrows.flip hsc
  exact hgives.tags

end Outline

end FeatureDoc
