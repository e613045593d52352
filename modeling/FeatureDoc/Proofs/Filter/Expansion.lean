import FeatureDoc.Proofs.Filter.Narrow
import FeatureDoc.Proofs.Outline.Expansion

/-!
# Narrowing and expanding

An outline is narrowed by the rows of its examples, and expanding it gives one scenario for each of
these rows. A test of rows and a test of scenarios that agree on every row and its scenario can
therefore be made before or after expanding.

* `Outline.TestsAgree p q` is this assumption; `Outline.expand_retain` says what follows from it.
* `Outline.testsAgree_lines` says that a range of lines gives two such tests, unless the outline
  itself is in the range.
* `expand_select_lines` is the main statement.
-/

namespace FeatureDoc

@[simp] theorem Table.header?_retain (t : Table) (p : Row → Bool) :
    (t.retain p).header? = t.header? := by
  unfold header? retain dataRows
  cases t.rows with
  | nil => rfl
  | cons header rows => rfl

namespace Outline

variable {o : Outline} {p : Row → Bool} {q : Scenario → Bool} {scenarios : List Scenario}

/-- The outline with the header and the data rows that pass a test. -/
def retain (o : Outline) (p : Row → Bool) : Outline := { o with examples := o.examples.retain p }

/-- A test of rows and a test of scenarios agree on every row and its scenario. -/
def TestsAgree (o : Outline) (p : Row → Bool) (q : Scenario → Bool) : Prop :=
  ∀ ⦃header row sc⦄, o.Gives header row sc → p row = q sc

/-- The rows that pass give the scenarios that pass. -/
theorem TestsAgree.gives_filter (hpq : o.TestsAgree p q) {header : Row} {rows : List Row}
    (h : List.Forall₂ (o.Gives header) rows scenarios) :
    List.Forall₂ (o.Gives header) (rows.filter p) (scenarios.filter q) :=
  List.rel_filter (fun _ _ hgives => Bool.eq_iff_iff.1 (hpq hgives)) h

/-- **Dropping rows before expanding is dropping their scenarios afterwards.** -/
theorem expand_retain (hpq : o.TestsAgree p q) (h : o.expand = .ok scenarios) :
    (o.retain p).expand = .ok (scenarios.filter q) := by
  obtain ⟨header, hheader, hrows⟩ := expand_eq_ok_iff.1 h
  refine expand_eq_ok_iff.2 ⟨header, ?_, ?_⟩
  · rw [retain, Table.header?_retain, hheader]
  · rw [retain, Table.dataRows_retain]
    exact hpq.gives_filter hrows

/-- No row passes if and only if no scenario does. -/
theorem filter_dataRows_eq_nil_iff (hpq : o.TestsAgree p q) (h : o.expand = .ok scenarios) :
    o.examples.dataRows.filter p = [] ↔ scenarios.filter q = [] := by
  obtain ⟨header, -, hrows⟩ := expand_eq_ok_iff.1 h
  rw [← List.length_eq_zero_iff, (hpq.gives_filter hrows).length_eq, List.length_eq_zero_iff]

/-- A row is in a range of lines if and only if its scenario is. A row without cells is in no range,
and its scenario stands on the line of the outline. -/
theorem testsAgree_lines {r : LineRange} (ho : r.contains o.line = false) :
    o.TestsAgree r.containsRow fun sc => r.contains sc.line := by
  intro header row sc h
  dsimp only
  rw [h.line, LineRange.containsRow]
  cases row.line? with
  | none => exact ho.symm
  | some line => rfl

end Outline

/-- What a range of lines keeps of an outline that is not in the range itself. -/
theorem Filter.select?_lines_outline {f : Feature} {o : Outline} {r : LineRange}
    (hf : r.contains f.line = false) (ho : r.contains o.line = false) :
    (Filter.lines r).select? f (.outline o) =
      if o.examples.dataRows.filter r.containsRow = [] then none
      else some (.outline (o.retain r.containsRow)) :=
  select?_lines_of_not_contains hf ho

/-- **Selecting lines commutes with expanding.** Of an outline that can be expanded and that is not
in the range itself, a range of lines keeps an outline which expands to the scenarios in the range,
of which there is at least one; or it keeps nothing, and there is no such scenario. -/
theorem expand_select_lines {f : Feature} {o : Outline} {r : LineRange} {scenarios : List Scenario}
    (hf : r.contains f.line = false) (ho : r.contains o.line = false)
    (h : o.expand = .ok scenarios) :
    (∀ e, (Filter.lines r).select? f (.outline o) = some e → ∃ o', e = .outline o' ∧
      o'.expand = .ok (scenarios.filter fun sc => r.contains sc.line) ∧
      scenarios.filter (fun sc => r.contains sc.line) ≠ []) ∧
    ((Filter.lines r).select? f (.outline o) = none →
      ∀ sc ∈ scenarios, r.contains sc.line = false) := by
  have hnil := Outline.filter_dataRows_eq_nil_iff (Outline.testsAgree_lines ho) h
  rw [Filter.select?_lines_outline hf ho]
  constructor
  · intro e he
    split at he
    · cases he
    · next hrows =>
      cases he
      exact ⟨_, rfl, Outline.expand_retain (Outline.testsAgree_lines ho) h, hnil.not.1 hrows⟩
  · intro hnone sc hsc
    split at hnone
    · next hrows => simpa using List.filter_eq_nil_iff.1 (hnil.1 hrows) sc hsc
    · cases hnone

/-- An outline with two columns of one name, of whose three rows a range keeps the last two. -/
theorem expand_select_lines_rows : ∃ o : Outline, ∃ scenarios kept,
    o = ⟨⟨"o", 3, ["t"], [⟨⟨.step .given, "Given", 4⟩, "\x7b\x7b<a>\x7d\x7d", [], none, 4⟩]⟩,
      ⟨[[⟨"a", 6⟩, ⟨"a", 6⟩], [⟨"1", 7⟩, ⟨"2", 7⟩], [⟨"x", 8⟩, ⟨"y", 8⟩],
        [⟨"z", 9⟩, ⟨"5", 9⟩]]⟩⟩ ∧
    (⟨8, 10⟩ : LineRange).contains 1 = false ∧ (⟨8, 10⟩ : LineRange).contains o.line = false ∧
    o.expand = .ok scenarios ∧ scenarios.map Scenario.line = [7, 8, 9] ∧
    (Filter.lines ⟨8, 10⟩).select? ⟨"f", 1, [], [], none, []⟩ (.outline o) =
      some (.outline kept) ∧
    kept.expand = .ok [⟨"o", 8, ["t"], [⟨⟨.step .given, "Given", 4⟩, "y", [], none, 4⟩]⟩,
      ⟨"o", 9, ["t"], [⟨⟨.step .given, "Given", 4⟩, "\x7b\x7bd\x7d\x7d", ["5"], none, 4⟩]⟩] := by
  have hf : (⟨8, 10⟩ : LineRange).contains 1 = false := by decide
  have ho : (⟨8, 10⟩ : LineRange).contains 3 = false := by decide
  have h : Outline.expand ⟨⟨"o", 3, ["t"], [⟨⟨.step .given, "Given", 4⟩,
      "\x7b\x7b<a>\x7d\x7d", [], none, 4⟩]⟩, ⟨[[⟨"a", 6⟩, ⟨"a", 6⟩], [⟨"1", 7⟩, ⟨"2", 7⟩],
        [⟨"x", 8⟩, ⟨"y", 8⟩], [⟨"z", 9⟩, ⟨"5", 9⟩]]⟩⟩ =
      .ok [⟨"o", 7, ["t"], [⟨⟨.step .given, "Given", 4⟩, "\x7b\x7bd\x7d\x7d", ["2"], none, 4⟩]⟩,
        ⟨"o", 8, ["t"], [⟨⟨.step .given, "Given", 4⟩, "y", [], none, 4⟩]⟩,
        ⟨"o", 9, ["t"], [⟨⟨.step .given, "Given", 4⟩, "\x7b\x7bd\x7d\x7d", ["5"], none, 4⟩]⟩] := by
    decide +kernel
  obtain ⟨hsome, -⟩ := expand_select_lines (f := ⟨"f", 1, [], [], none, []⟩) hf ho h
  obtain ⟨kept, heq, hexpand, -⟩ := hsome _ rfl
  cases heq
  exact ⟨_, _, _, rfl, hf, ho, h, rfl, rfl, hexpand⟩

end FeatureDoc
