import FeatureDoc.Proofs.Outline.Expansion

/-!
# What an expansion comes to

An expansion is checked in layers. There has to be a header, every data row has to be as wide as the
header, and only then the references are looked up: row by row, step by step, from left to right.
The first check that fails is the error, and where none fails every data row gives a scenario.

* `ColumnValue` is the value of a column in a row, `Fault` says what can be wrong with one
  reference, and `Outline.lookups` lists the references in the order in which they are looked up.
* `Table.records_eq_error_iff` finds the row that is reported, `Outline.expand_eq_error_iff` the
  reference.
* `Outline.IsInstance` says what the scenario of a row keeps of the outline and what it takes from
  the row; `Outline.Gives.isInstance` that the scenarios of an expansion are such.
* `Outline.expand_outcome` is the main statement, about all layers.
-/

namespace FeatureDoc

/-! ## One reference -/

/-- The value of a column in a row; of several columns of one name, that of the last. -/
def ColumnValue (header row : Row) (name value : String) : Prop :=
  ∃ front title cell back, header.zip row = front ++ (title, cell) :: back ∧
    title.literal = name ∧ cell.literal = value ∧ ∀ p ∈ back, p.1.literal ≠ name

/-- What is wrong with a reference in the text of a step. -/
inductive Fault (header row : Row) (name : List Char) : ExpandError → Prop where
  /-- No column has the name. -/
  | unknown (h : ∀ title ∈ header, title.literal ≠ String.ofList name) :
    Fault header row name (.unknownPlaceholder (String.ofList name) (header.map Cell.literal))
  /-- The value is no number and holds double braces. -/
  | reserved {value : String} (hvalue : ColumnValue header row (String.ofList name) value)
      (hnumber : isNumber value.toList = false) (hbraces : DoubleBraces value.toList) :
    Fault header row name (.reservedDelimiter (String.ofList name) value)

namespace Record

variable {header row : Row}

theorem entries_ofRow (header row : Row) : (ofRow header row).entries =
    (header.zip row).map (Prod.map Cell.literal Cell.literal) := List.zip_map

/-- A record holds the values of the columns. -/
theorem get?_ofRow {name value : String} :
    (ofRow header row).get? name = some value ↔ ColumnValue header row name value := by
  rw [get?, entries_ofRow, List.lookup_eq_some_iff]
  -- the record is searched from its end
  simp only [List.reverse_eq_iff, List.reverse_append, List.reverse_cons, List.append_assoc,
    List.singleton_append, List.map_eq_append_iff, List.map_eq_cons_iff, bne_iff_ne]
  constructor
  · rintro ⟨after, before, ⟨front, _, hzip, -, ⟨title, cell⟩, back, rfl, hcell, hback⟩, hafter⟩
    obtain ⟨rfl, rfl⟩ := Prod.mk.inj hcell
    refine ⟨front, title, cell, back, hzip, rfl, rfl, fun p hp => ?_⟩
    have hp' : Prod.map Cell.literal Cell.literal p ∈ after := by
      rw [← List.mem_reverse, ← hback]
      exact List.mem_map_of_mem hp
    exact (hafter _ hp').symm
  · rintro ⟨front, title, cell, back, hzip, rfl, rfl, hback⟩
    refine ⟨(back.map (Prod.map Cell.literal Cell.literal)).reverse,
      (front.map (Prod.map Cell.literal Cell.literal)).reverse,
      ⟨front, _, hzip, ?_, (title, cell), back, rfl, rfl, ?_⟩, fun p hp => ?_⟩
    · rw [List.reverse_reverse]
    · rw [List.reverse_reverse]
    · obtain ⟨q, hq, rfl⟩ := List.mem_map.1 (List.mem_reverse.1 hp)
      exact (hback q hq).symm

/-- A name without a value is not in the header. -/
theorem get?_ofRow_eq_none (h : row.length = header.length) {name : String} :
    (ofRow header row).get? name = none ↔ ∀ title ∈ header, title.literal ≠ name := by
  have hnames : (ofRow header row).entries.map Prod.fst = header.map Cell.literal :=
    List.map_fst_zip (by simp [h])
  have hmem : ∀ p : String → Prop, (∀ entry ∈ (ofRow header row).entries, p entry.1) ↔
      ∀ title ∈ header, p title.literal := by
    intro p
    rw [← List.forall_mem_map (f := Prod.fst), hnames, List.forall_mem_map]
  rw [get?, List.lookup_eq_none_iff]
  simp only [List.mem_reverse, bne_iff_ne]
  rw [hmem (name ≠ ·)]
  simp only [ne_comm]

theorem get?_of_resolve {r : Record} {columns : List String} {name : List Char} {value : String}
    (h : r.resolve columns name = .ok value) : r.get? (String.ofList name) = some value := by
  unfold resolve at h
  split at h
  · cases h
  · next value' hvalue =>
    split at h
    · cases h
    · cases h
      exact hvalue

/-- A reference is refused where it has a fault. -/
theorem resolve_ofRow_eq_error_iff (h : row.length = header.length) {name : List Char}
    {e : ExpandError} : (ofRow header row).resolve (header.map Cell.literal) name = .error e ↔
      Fault header row name e := by
  unfold resolve
  cases hget : (ofRow header row).get? (String.ofList name) with
  | none =>
    constructor
    · rintro ⟨⟩
      exact .unknown ((get?_ofRow_eq_none h).1 hget)
    · rintro (_ | ⟨hvalue⟩)
      · rfl
      · rw [get?_ofRow.2 hvalue] at hget
        cases hget
  | some value =>
    have hcheck : (!isNumber value.toList && hasDelimiter value.toList) = true ↔
        isNumber value.toList = false ∧ DoubleBraces value.toList := by
      rw [Bool.and_eq_true, Bool.not_eq_true', hasDelimiter_iff]
    constructor
    · intro he
      dsimp only at he
      split at he
      · next hrefused =>
        cases he
        obtain ⟨hnumber, hbraces⟩ := hcheck.1 hrefused
        exact .reserved (get?_ofRow.1 hget) hnumber hbraces
      · cases he
    · rintro (hunknown | ⟨hvalue, hnumber, hbraces⟩)
      · rw [(get?_ofRow_eq_none h).2 hunknown] at hget
        cases hget
      · obtain rfl := Option.some.inj ((get?_ofRow.2 hvalue).symm.trans hget)
        exact if_pos (hcheck.2 ⟨hnumber, hbraces⟩)

end Record

/-! ## The text of a step -/

/-- The name in a reference. -/
def Segment.reference? : Segment → Option (List Char)
  | .mark (.reference name) => some name
  | _ => none

/-- The names that a step looks up in the examples, from left to right. -/
def Step.references (s : Step) : List (List Char) :=
  (FeatureDoc.segments s.text.toList).filterMap Segment.reference?

/-- What becomes of a segment with the values of a row. -/
inductive Segment.Becomes (header row : Row) : Segment → List Char → Prop where
  /-- Prose stays as it is. -/
  | char (c : Char) : Becomes header row (.char c) [c]
  /-- A data placeholder stays as it is. -/
  | datum {p : Placeholder} (hp : p.isData = true) : Becomes header row (.mark p) p.chars
  /-- A number becomes a datum, which leaves a placeholder. -/
  | number {name : List Char} {value : String}
      (hvalue : ColumnValue header row (String.ofList name) value)
      (hnumber : isNumber value.toList = true) :
    Becomes header row (.mark (.reference name)) Placeholder.number.chars
  /-- Any other value becomes prose. -/
  | prose {name : List Char} {value : String}
      (hvalue : ColumnValue header row (String.ofList name) value)
      (hnumber : isNumber value.toList = false) :
    Becomes header row (.mark (.reference name)) value.toList

namespace Record

/-- The references of a text are looked up from left to right. -/
theorem substitute_eq_error_iff {r : Record} {columns : List String} {segs : List Segment}
    {data : List String} {e : ExpandError} : r.substitute columns segs data = .error e ↔
      FirstFault (fun name e => r.resolve columns name = .error e)
        (segs.filterMap Segment.reference?) e := by
  induction segs generalizing data with
  | nil => exact iff_of_false (fun h => (nomatch h)) not_firstFault_nil
  | cons a segs ih =>
    cases a with
    | char c =>
      rw [substitute]
      exact (bind_eq_error_iff_of_ok fun _ => ⟨_, rfl⟩).trans ih
    | mark p =>
      by_cases hp : p.isData = true
      · have hnames : (Segment.mark p :: segs).filterMap Segment.reference? =
            segs.filterMap Segment.reference? := by
          cases p with
          | number => rfl
          | string => rfl
          | reference name => cases hp
        rw [substitute_mark hp, hnames]
        exact (bind_eq_error_iff_of_ok fun _ => ⟨_, rfl⟩).trans ih
      · obtain ⟨name, rfl⟩ := Placeholder.exists_eq_reference hp
        have hnames : (Segment.mark (.reference name) :: segs).filterMap Segment.reference? =
            name :: segs.filterMap Segment.reference? := List.filterMap_cons_some rfl
        rw [substitute, hnames, firstFault_cons]
        refine bind_eq_error_iff_of_forall fun value =>
          (bind_eq_error_iff_of_ok fun x => ?_).trans ih
        dsimp only
        split
        · exact ⟨_, rfl⟩
        · exact ⟨_, rfl⟩

/-- The text with the values of a row is put together from left to right. -/
theorem becomes_of_substitute {header row : Row} {columns : List String} {segs : List Segment}
    {data data' : List String} {text : List Char}
    (h : (ofRow header row).substitute columns segs data = .ok (text, data')) :
    ∃ pieces, List.Forall₂ (Segment.Becomes header row) segs pieces ∧ text = pieces.flatten := by
  induction segs generalizing data data' text with
  | nil =>
    cases h
    exact ⟨[], .nil, rfl⟩
  | cons a segs ih =>
    obtain ⟨c, text₁, rfl, rfl, hrest⟩ | ⟨p, text₁, data₁, rfl, hp, rfl, rfl, hrest⟩ |
      ⟨name, value, text₁, data₁, rfl, hresolve, hrest, hcases⟩ := substitute_cons_cases h
    · obtain ⟨pieces, hpieces, rfl⟩ := ih hrest
      exact ⟨_ :: pieces, .cons (.char c) hpieces, rfl⟩
    · obtain ⟨pieces, hpieces, rfl⟩ := ih hrest
      exact ⟨_ :: pieces, .cons (.datum hp) hpieces, rfl⟩
    · obtain ⟨pieces, hpieces, rfl⟩ := ih hrest
      have hvalue := get?_ofRow.1 (get?_of_resolve hresolve)
      obtain ⟨hnumber, rfl, -⟩ | ⟨hnumber, rfl, -⟩ := hcases
      · exact ⟨_ :: pieces, .cons (.number hvalue hnumber) hpieces, rfl⟩
      · exact ⟨_ :: pieces, .cons (.prose hvalue hnumber) hpieces, rfl⟩

end Record

/-! ## Rows of a wrong width -/

namespace Table

variable {t : Table} {header row : Row}

theorem checkWidth_eq_error_iff {index : ℕ} {e : TableError} :
    t.checkWidth index row = .error e ↔
      row.length ≠ t.width ∧ e = .malformed (index + 1) row.length t.width := by
  unfold checkWidth
  split
  · next h => simp [h]
  · next h => simp [h, eq_comm]

/-- The first data row that is not as wide as the header is reported. -/
theorem records_eq_error_iff (h : t.header? = some header) {e : TableError} :
    t.records = .error e ↔ FirstFault (fun (x : Row × ℕ) e =>
      x.1.length ≠ header.length ∧ e = .malformed (x.2 + 1) x.1.length header.length)
      (t.dataRows.zipIdx 1) e := by
  have hrow : ∀ x : Row × ℕ, ∀ e, (do
      let row ← t.checkWidth x.2 x.1
      return Record.ofRow header row) = Except.error e ↔
        x.1.length ≠ header.length ∧ e = .malformed (x.2 + 1) x.1.length header.length := by
    intro x e
    refine (bind_eq_error_iff_of_ok fun _ => ⟨_, rfl⟩).trans ?_
    rw [checkWidth_eq_error_iff, width_of_header? h]
  have hrecords : t.records = (t.dataRows.zipIdx 1).mapM fun x => do
      let row ← t.checkWidth x.2 x.1
      return Record.ofRow header row := by
    rw [records, columnNames, h]
    rfl
  rw [hrecords, mapM_eq_error_iff]
  simp only [hrow]

/-- The same row, by its index. -/
theorem records_of_malformed {data : List Row} (h : t.rows = header :: data) {i : ℕ} (hi : 0 < i)
    (hrow : t.rows[i]? = some row) (hwidth : row.length ≠ header.length)
    (hbefore : ∀ j row', 0 < j → j < i → t.rows[j]? = some row' → row'.length = header.length) :
    t.records = .error (.malformed (i + 1) row.length header.length) := by
  obtain ⟨k, rfl⟩ : ∃ k, i = k + 1 := ⟨i - 1, by omega⟩
  rw [h, List.getElem?_cons_succ, List.getElem?_eq_some_iff] at hrow
  obtain ⟨hk, rfl⟩ := hrow
  have hheader : t.header? = some header := by rw [header?, h, List.head?_cons]
  have hdata : t.dataRows = data.take k ++ data[k] :: data.drop (k + 1) := by
    rw [dataRows, h, List.drop_one, List.tail_cons, List.getElem_cons_drop, List.take_append_drop]
  rw [records_eq_error_iff hheader, hdata, List.zipIdx_append, List.zipIdx_cons,
    List.length_take_of_le hk.le, Nat.add_comm 1 k]
  refine ⟨_, _, _, rfl, fun x hx e hfault => hfault.1 ?_, hwidth, rfl⟩
  obtain ⟨j, hj, hx⟩ := List.mem_take_iff_getElem.1 (List.fst_mem_of_mem_zipIdx hx)
  refine hbefore (j + 1) x.1 (Nat.succ_pos j) (by omega) ?_
  rw [h, List.getElem?_cons_succ, ← hx, List.getElem?_eq_getElem]

end Table

/-! ## Whole outlines -/

/-- The lines of the cells of a table, row by row. -/
def Table.cellLines (t : Table) : List (List ℕ) := t.rows.map (List.map Cell.line)

/-- `s'` is the step `s` with the values of a row: the same keyword, on the same line, over a table
of the same shape on the same lines. -/
structure Step.IsInstance (header row : Row) (s s' : Step) : Prop where
  /-- The token that opens the step. -/
  keyword : s'.keyword = s.keyword
  /-- The line of the step. -/
  line : s'.line = s.line
  /-- The text, with the values of the row in place of the references. -/
  text : ∃ pieces,
    List.Forall₂ (Segment.Becomes header row) (FeatureDoc.segments s.text.toList) pieces ∧
      s'.text = String.ofList pieces.flatten
  /-- The table, cell by cell on the same lines. -/
  table : s'.table.map Table.cellLines = s.table.map Table.cellLines

theorem Table.cellLines_mapLiterals (f : String → String) (t : Table) :
    (t.mapLiterals f).cellLines = t.cellLines := by
  simp [cellLines, mapLiterals]

theorem Step.isInstance_of_substitute {header row : Row} {columns : List String} {s s' : Step}
    (h : s.substitute columns (.ofRow header row) = .ok s') : s.IsInstance header row s' := by
  obtain ⟨⟨text, data⟩, hsubst, heq⟩ := bind_eq_ok_iff.1 h
  obtain ⟨pieces, hpieces, rfl⟩ := Record.becomes_of_substitute hsubst
  cases heq
  refine ⟨rfl, rfl, ⟨pieces, hpieces, rfl⟩, ?_⟩
  cases s.table with
  | none => rfl
  | some t => exact congrArg some (t.cellLines_mapLiterals _)

namespace Outline

variable {o : Outline} {header row : Row}

/-- `sc` is the scenario of a row. -/
structure IsInstance (o : Outline) (header row : Row) (sc : Scenario) : Prop where
  /-- The title of the outline. -/
  text : sc.text = o.text
  /-- The tags of the outline. -/
  tags : sc.tags = o.tags
  /-- The line of the first cell, or that of the outline where the row has no cells. -/
  line : sc.line = (row.head?.map Cell.line).getD o.line
  /-- One step for each step of the outline. -/
  steps : List.Forall₂ (Step.IsInstance header row) o.steps sc.steps

/-- The scenarios of an expansion are instances of the outline. -/
theorem Gives.isInstance {sc : Scenario} (h : o.Gives header row sc) :
    o.IsInstance header row sc := by
  obtain ⟨steps, hsteps, heq⟩ := bind_eq_ok_iff.1 h.2
  cases heq
  exact ⟨rfl, rfl, rfl, (mapM_eq_ok_iff.1 hsteps).imp fun _ _ => Step.isInstance_of_substitute⟩

/-- The references of an outline with the rows in which they are looked up, in the order of the
look-ups: row by row, step by step, from left to right. -/
def lookups (o : Outline) : List (Row × List Char) :=
  o.examples.dataRows.flatMap fun row =>
    o.steps.flatMap fun s => s.references.map fun name => (row, name)

theorem instantiate_eq_error_iff {columns : List String} {r : Record} {e : ExpandError} :
    o.instantiate columns row r = .error e ↔
      FirstFault (fun name e => r.resolve columns name = .error e)
        (o.steps.flatMap Step.references) e := by
  have hstep : ∀ (s : Step) e, s.substitute columns r = .error e ↔
      FirstFault (fun name e => r.resolve columns name = .error e) s.references e := fun s e =>
    (bind_eq_error_iff_of_ok fun _ => ⟨_, rfl⟩).trans Record.substitute_eq_error_iff
  rw [instantiate]
  refine (bind_eq_error_iff_of_ok fun _ => ⟨_, rfl⟩).trans ?_
  rw [mapM_eq_error_iff, firstFault_flatMap]
  simp only [hstep]

/-- Where the data rows are as wide as the header, the first reference with a fault is reported. -/
theorem expand_eq_error_iff (h : o.examples.header? = some header)
    (hwidth : ∀ row ∈ o.examples.dataRows, row.length = header.length) {e : ExpandError} :
    o.expand = .error e ↔ FirstFault (fun x => Fault header x.1 x.2) o.lookups e := by
  rw [expand_of_length_eq h hwidth, mapM_eq_error_iff, lookups, firstFault_flatMap]
  refine firstFault_congr fun row hrow e => ?_
  have hmap : (o.steps.flatMap fun s => s.references.map fun name => (row, name)) =
      (o.steps.flatMap Step.references).map fun name => (row, name) := List.map_flatMap.symm
  rw [instantiate_eq_error_iff, hmap, firstFault_map]
  simp only [Record.resolve_ofRow_eq_error_iff (hwidth row hrow)]

theorem expand_of_records_eq_error {e : TableError} (h : o.examples.records = .error e) :
    o.expand = .error (.table e) := by
  unfold expand
  cases hcolumns : o.examples.columnNames with
  | error e' =>
    rw [Table.records, hcolumns] at h
    cases h
    rfl
  | ok columns =>
    rw [h]
    rfl

/-- The look-ups find no fault with the table. -/
theorem not_fault_table {name : List Char} {e : TableError} :
    ¬ Fault header row name (.table e) := nofun

/-- Only a table without rows lacks a header. -/
theorem expand_eq_missingHeader_iff :
    o.expand = .error (.table .missingHeader) ↔ o.examples.rows = [] := by
  constructor
  · intro h
    by_contra hrows
    obtain ⟨header, data, hrows⟩ := List.exists_cons_of_ne_nil hrows
    have hheader : o.examples.header? = some header := by rw [Table.header?, hrows, List.head?_cons]
    cases hrecords : o.examples.records with
    | error e =>
      obtain ⟨_, _, _, -, -, -, rfl⟩ := (Table.records_eq_error_iff hheader).1 hrecords
      rw [expand_of_records_eq_error hrecords] at h
      cases h
    | ok rs =>
      obtain ⟨header', hheader', hwidth, -⟩ := Table.records_eq_ok_iff.1 hrecords
      obtain ⟨_, _, _, -, -, hfault⟩ := (expand_eq_error_iff hheader' hwidth).1 h
      exact not_fault_table hfault
  · intro hrows
    apply expand_of_records_eq_error
    rw [Table.records, Table.columnNames, Table.header?, hrows]
    rfl

end Outline

/-- **What an expansion comes to.** Without a header, that is the error. With a header, the first
row of another width is the error. Where there is none, every row has its values by column name,
that of the last column for a name that is repeated; the first fault among the references is the
error, row by row, step by step and from left to right; and where there is no fault either, every
data row gives one scenario, which is an instance of the outline. -/
theorem Outline.expand_outcome (o : Outline) :
    (o.expand = .error (.table .missingHeader) ↔ o.examples.rows = []) ∧
    ∀ header data, o.examples.rows = header :: data →
      (∀ i row, 0 < i → o.examples.rows[i]? = some row → row.length ≠ header.length →
        (∀ j row', 0 < j → j < i → o.examples.rows[j]? = some row' →
          row'.length = header.length) →
        o.expand = .error (.table (.malformed (i + 1) row.length header.length))) ∧
      ((∀ row ∈ data, row.length = header.length) →
        (∃ records, o.examples.records = .ok records ∧ List.Forall₂ (fun row r =>
          ∀ name value, r.get? name = some value ↔ ColumnValue header row name value)
          data records) ∧
        (∀ e, o.expand = .error e ↔ FirstFault (fun x => Fault header x.1 x.2) o.lookups e) ∧
        ((∀ x ∈ o.lookups, ∀ e, ¬ Fault header x.1 x.2 e) →
          ∃ scenarios, o.expand = .ok scenarios ∧
            List.Forall₂ (o.IsInstance header) data scenarios)) := by
  refine ⟨expand_eq_missingHeader_iff, fun header data hrows => ⟨?_, fun hwidth => ?_⟩⟩
  · intro i row hi hrow hne hbefore
    exact expand_of_records_eq_error (Table.records_of_malformed hrows hi hrow hne hbefore)
  · have hheader : o.examples.header? = some header := by rw [Table.header?, hrows, List.head?_cons]
    have hdata : o.examples.dataRows = data := by rw [Table.dataRows, hrows]; rfl
    subst hdata
    refine ⟨⟨_, Table.records_eq_ok_iff.2 ⟨header, hheader, hwidth, rfl⟩, ?_⟩,
      fun e => expand_eq_error_iff hheader hwidth, fun hnone => ?_⟩
    · rw [List.forall₂_map_right_iff, List.forall₂_same]
      exact fun row _ name value => Record.get?_ofRow
    · obtain ⟨scenarios, hok⟩ : ∃ scenarios, o.expand = .ok scenarios := by
        rw [← not_fails_iff]
        rintro ⟨e, he⟩
        rw [expand_eq_error_iff hheader hwidth] at he
        exact forall_not_firstFault_iff.2 hnone e he
      obtain ⟨header', hheader', hgives⟩ := expand_eq_ok_iff.1 hok
      obtain rfl := Option.some.inj (hheader.symm.trans hheader')
      exact ⟨scenarios, hok, hgives.imp fun _ _ h => h.isInstance⟩

/-- One outline for each layer: a row without cells in front of a row that is too wide, a name that
is unknown in the first row in front of a value with braces in the second, and a name of two
columns. -/
theorem Outline.expand_outcome_layers : ∃ ragged faulty repeated : Outline,
    ragged = ⟨⟨"o", 1, [], []⟩, ⟨[[⟨"a", 2⟩], [⟨"1", 3⟩], [], [⟨"2", 5⟩, ⟨"3", 5⟩]]⟩⟩ ∧
    ragged.expand = .error (.table (.malformed 3 0 1)) ∧
    faulty = ⟨⟨"o", 1, [], [⟨⟨.step .given, "Given", 2⟩,
        "\x7b\x7b<n>\x7d\x7d \x7b\x7b<m>\x7d\x7d", [], none, 2⟩]⟩,
      ⟨[[⟨"n", 3⟩], [⟨"7", 4⟩], [⟨"\x7b\x7b", 5⟩]]⟩⟩ ∧
    faulty.expand = .error (.unknownPlaceholder "m" ["n"]) ∧
    repeated = ⟨⟨"o", 1, ["t"], [⟨⟨.step .given, "Given", 2⟩,
        "\x7b\x7b<n>\x7d\x7d", [], some ⟨[[⟨"<n>", 3⟩]]⟩, 2⟩]⟩,
      ⟨[[⟨"n", 4⟩, ⟨"n", 4⟩], [⟨"1", 5⟩, ⟨"x", 5⟩]]⟩⟩ ∧
    ∃ scenarios, repeated.expand = .ok scenarios ∧
      List.Forall₂ (repeated.IsInstance [⟨"n", 4⟩, ⟨"n", 4⟩]) [[⟨"1", 5⟩, ⟨"x", 5⟩]] scenarios ∧
      scenarios = [⟨"o", 5, ["t"],
        [⟨⟨.step .given, "Given", 2⟩, "x", [], some ⟨[[⟨"x", 3⟩]]⟩, 2⟩]⟩] := by
  have hfine : ∀ (value : String) {header row : Row} {name : List Char},
      row.length = header.length →
      (Record.ofRow header row).resolve (header.map Cell.literal) name = .ok value →
      ∀ e, ¬ Fault header row name e := by
    intro value header row name hwidth hok e hfault
    rw [← Record.resolve_ofRow_eq_error_iff hwidth, hok] at hfault
    cases hfault
  refine ⟨_, _, _, rfl, ?_, rfl, ?_, rfl, ?_⟩
  · have hragged := (expand_outcome ⟨⟨"o", 1, [], []⟩,
      ⟨[[⟨"a", 2⟩], [⟨"1", 3⟩], [], [⟨"2", 5⟩, ⟨"3", 5⟩]]⟩⟩).2 _ _ rfl
    refine hragged.1 2 [] (by decide) rfl (by decide) fun j row' h₀ h₂ h => ?_
    obtain rfl : j = 1 := by omega
    cases h
    rfl
  · have hfaulty := ((expand_outcome ⟨⟨"o", 1, [], [⟨⟨.step .given, "Given", 2⟩,
        "\x7b\x7b<n>\x7d\x7d \x7b\x7b<m>\x7d\x7d", [], none, 2⟩]⟩,
      ⟨[[⟨"n", 3⟩], [⟨"7", 4⟩], [⟨"\x7b\x7b", 5⟩]]⟩⟩).2 _ _ rfl).2 (by decide)
    refine (hfaulty.2.1 _).2 ⟨[([⟨"7", 4⟩], ['n'])], ([⟨"7", 4⟩], ['m']),
        [([⟨"\x7b\x7b", 5⟩], ['n']), ([⟨"\x7b\x7b", 5⟩], ['m'])], by decide +kernel,
        fun x hx => ?_, .unknown (by decide)⟩
    rw [List.mem_singleton.1 hx]
    exact hfine "7" rfl (by decide +kernel)
  · have hrepeated := ((expand_outcome ⟨⟨"o", 1, ["t"], [⟨⟨.step .given, "Given", 2⟩,
        "\x7b\x7b<n>\x7d\x7d", [], some ⟨[[⟨"<n>", 3⟩]]⟩, 2⟩]⟩,
      ⟨[[⟨"n", 4⟩, ⟨"n", 4⟩], [⟨"1", 5⟩, ⟨"x", 5⟩]]⟩⟩).2 _ _ rfl).2 (by decide)
    obtain ⟨scenarios, hok, hinstance⟩ := hrepeated.2.2 fun x hx => by
      rw [show Outline.lookups _ = [([⟨"1", 5⟩, ⟨"x", 5⟩], ['n'])] by decide +kernel,
        List.mem_singleton] at hx
      rw [hx]
      exact hfine "x" rfl (by decide +kernel)
    refine ⟨scenarios, hok, hinstance, Except.ok.inj (hok.symm.trans ?_)⟩
    decide +kernel

end FeatureDoc
