import FeatureDoc.Proofs.Document.Lines
import FeatureDoc.Proofs.Filter.LineRange
import FeatureDoc.Proofs.Filter.Order
import FeatureDoc.Proofs.Outline.Expansion

/-!
# Selecting one line of a document

The parts of a document stand on lines of their own, so a range of one line selects at most one of
them: the feature, an entry, or a data row of an outline.

* `Entry.lines` of different entries are disjoint, so an entry on whose lines the selected one is
  not found is dropped (`Filter.select?_eq_none`), and a feature keeps what is left of one entry
  (`Feature.filter?_of_mem_lines`).
* `Outline.withRow` has one data row. `Outline.select?_row` says that selecting the line of a row
  leaves it, `Outline.expand_withRow` that it expands to the scenario of that row.
* `filter_line_of_parse` is the main statement.
-/

namespace FeatureDoc

/-- A member with a value that no other member has is the only one with this value. -/
theorem filter_eq_singleton_of_nodup {α : Type} {f : α → ℕ} {l : List α} (h : (l.map f).Nodup)
    {x : α} (hx : x ∈ l) : l.filter (fun y => f y == f x) = [x] := by
  obtain ⟨s, t, rfl⟩ := List.append_of_mem hx
  rw [List.map_append, List.map_cons, List.nodup_append, List.nodup_cons] at h
  obtain ⟨-, ⟨ht, -⟩, hs⟩ := h
  rw [List.filter_append, List.filter_cons_of_pos (by simp)]
  have hs' : s.filter (fun y => f y == f x) = [] := by
    refine List.filter_eq_nil_iff.2 fun y hy heq => ?_
    exact hs _ (List.mem_map_of_mem hy) _ List.mem_cons_self (beq_iff_eq.1 heq)
  have ht' : t.filter (fun y => f y == f x) = [] := by
    refine List.filter_eq_nil_iff.2 fun y hy heq => ht ?_
    exact beq_iff_eq.1 heq ▸ List.mem_map_of_mem hy
  rw [hs', ht', List.nil_append]

/-! ## Rows of a well-shaped table -/

namespace Table.WellShaped

variable {t : Table} (h : t.WellShaped)

include h

theorem ne_nil_of_mem {row : Row} (hrow : row ∈ t.rows) : row ≠ [] := by
  rintro rfl
  exact absurd (h.length_eq [] hrow) h.width_pos.ne

theorem line?_getD_of_mem {row : Row} (hrow : row ∈ t.rows) (line : ℕ) :
    row.line? = some (row.line?.getD line) := by
  rcases row with _ | ⟨cell, row⟩
  · exact absurd rfl (h.ne_nil_of_mem hrow)
  · rfl

/-- No two rows stand on one line. -/
theorem nodup_lines (line : ℕ) : (t.rows.map fun row => row.line?.getD line).Nodup := by
  obtain ⟨first, -, hline⟩ := h.line_eq
  have hrange : t.rows.map (fun row => row.line?.getD line) =
      List.range' first t.rows.length := by
    apply List.ext_getElem (by simp)
    intro i hi hi'
    rw [List.length_map] at hi
    have hmem := List.getElem_mem hi
    rcases hrow : t.rows[i] with _ | ⟨cell, row⟩
    · exact absurd hrow (h.ne_nil_of_mem hmem)
    · have := hline i t.rows[i] (List.getElem?_eq_getElem hi) cell
        (hrow ▸ List.mem_cons_self)
      simp [hrow, Row.line?, this]
  rw [hrange]
  exact List.nodup_range'

theorem nodup_lines_dataRows (line : ℕ) :
    (t.dataRows.map fun row => row.line?.getD line).Nodup :=
  (h.nodup_lines line).sublist ((List.drop_sublist 1 t.rows).map _)

/-- The data rows on the line of a row are that row. -/
theorem filter_containsRow {row : Row} (hrow : row ∈ t.dataRows) {n : ℕ}
    (hline : row.line? = some n) :
    t.dataRows.filter (⟨n, n⟩ : LineRange).containsRow = [row] := by
  rw [← filter_eq_singleton_of_nodup (h.nodup_lines_dataRows 0) hrow]
  refine List.filter_congr fun row' hrow' => ?_
  have hsome := h.line?_getD_of_mem ((List.drop_sublist 1 t.rows).subset hrow') 0
  rw [Bool.eq_iff_iff, LineRange.containsRow_single_iff, hsome, hline, Option.getD_some,
    beq_iff_eq, Option.some.injEq]
  simp

end Table.WellShaped

/-! ## What one line keeps of an entry -/

/-- The outline with one data row. -/
def Outline.withRow (o : Outline) (header row : Row) : Outline :=
  { o with examples := ⟨[header, row]⟩ }

namespace Filter

variable {f : Feature} {e : Entry} {n : ℕ}

theorem select?_of_line (f : Feature) (e : Entry) :
    (Filter.lines ⟨e.line, e.line⟩).select? f e = some e :=
  select?_lines_of_contains (Or.inr (LineRange.contains_single_iff.2 rfl))

theorem select?_of_ne (hf : f.line ≠ n) (he : e.line ≠ n) :
    (Filter.lines ⟨n, n⟩).select? f e =
      e.narrow (some (⟨n, n⟩ : LineRange).containsRow) := by
  have hf' : (⟨n, n⟩ : LineRange).contains f.line = false := by
    simpa using LineRange.contains_single_iff.not.2 hf
  have he' : (⟨n, n⟩ : LineRange).contains e.line = false := by
    simpa using LineRange.contains_single_iff.not.2 he
  exact select?_lines_of_not_contains hf' he'

/-- An entry that stands on another line is dropped, unless a data row stands on the line. -/
theorem select?_eq_none (hf : f.line ≠ n) (he : e.line ≠ n)
    (hrows : ∀ o, e = .outline o → ∀ row ∈ o.examples.dataRows, row.line? ≠ some n) :
    (Filter.lines ⟨n, n⟩).select? f e = none := by
  rw [select?_of_ne hf he]
  cases e with
  | scenario s => rfl
  | outline o =>
    refine if_pos (List.filter_eq_nil_iff.2 fun row hrow hmem => ?_)
    exact hrows o rfl row hrow (LineRange.containsRow_single_iff.1 hmem)

theorem select?_eq_none_of_notMem (hf : f.line ≠ n) (h : n ∉ e.lines) :
    (Filter.lines ⟨n, n⟩).select? f e = none := by
  refine select?_eq_none hf (fun he => h (he ▸ List.mem_cons_self)) ?_
  rintro o rfl row hrow hline
  refine h (List.mem_cons_of_mem _ (List.mem_append_right _ ?_))
  exact List.mem_filterMap.2 ⟨row, (List.drop_sublist 1 o.examples.rows).subset hrow, hline⟩

/-- Of an outline, the line of a data row keeps the header and that row. -/
theorem select?_row {o : Outline} (ho : o.examples.WellShaped) (hf : f.line ≠ n)
    (hline : o.line ≠ n) {header row : Row} (hheader : o.examples.header? = some header)
    (hrow : row ∈ o.examples.dataRows) (hn : row.line? = some n) :
    (Filter.lines ⟨n, n⟩).select? f (.outline o) = some (.outline (o.withRow header row)) := by
  have hfilter := ho.filter_containsRow hrow hn
  have hretain : o.examples.retain (⟨n, n⟩ : LineRange).containsRow = ⟨[header, row]⟩ := by
    have htake : o.examples.rows.take 1 = [header] :=
      (List.take_one (l := o.examples.rows)).trans (congrArg Option.toList hheader)
    rw [Table.retain, hfilter, htake, List.singleton_append]
  rw [select?_of_ne hf (e := .outline o) hline, Entry.narrow, if_neg (by simp [hfilter]), hretain]
  rfl

end Filter

/-- The scenario of a row is the one on its line, and all that is left when the other rows are
dropped. -/
theorem Outline.expand_withRow {o : Outline} (ho : o.examples.WellShaped) {header row : Row}
    (hheader : o.examples.header? = some header) (hrow : row ∈ o.examples.dataRows) {n : ℕ}
    (hn : row.line? = some n) {scenarios : List Scenario} (h : o.expand = .ok scenarios) :
    ∃ sc, scenarios.filter (fun sc => sc.line == n) = [sc] ∧
      (o.withRow header row).expand = .ok [sc] := by
  obtain ⟨header', hheader', hrows⟩ := expand_eq_ok_iff.1 h
  obtain rfl := Option.some.inj (hheader.symm.trans hheader')
  obtain ⟨sc, hsc, hgives⟩ := exists_of_mem_forall₂ hrows hrow
  have hline : sc.line = n := by rw [hgives.line, hn, Option.getD_some]
  have hlines : scenarios.map Scenario.line =
      o.examples.dataRows.map fun row => row.line?.getD o.line := by
    symm
    rw [← List.forall₂_eq_eq_eq, List.forall₂_map_left_iff, List.forall₂_map_right_iff]
    exact hrows.imp fun _ _ hrow => hrow.line.symm
  have hnodup : (scenarios.map Scenario.line).Nodup := by
    rw [hlines]
    exact ho.nodup_lines_dataRows o.line
  refine ⟨sc, hline ▸ filter_eq_singleton_of_nodup hnodup hsc, ?_⟩
  exact expand_eq_ok_iff.2 ⟨header, rfl, .cons hgives .nil⟩

/-! ## What one line keeps of a feature -/

namespace Feature

variable {f : Feature} {n : ℕ}

/-- The line of the feature keeps everything. -/
theorem filter?_of_line (f : Feature) : f.filter? (.lines ⟨f.line, f.line⟩) = some f := by
  have hcontains : (⟨f.line, f.line⟩ : LineRange).contains f.line = true :=
    LineRange.contains_single_iff.2 rfl
  have hselect : (Filter.lines ⟨f.line, f.line⟩).select? f = some :=
    funext fun e => Filter.select?_lines_of_contains (Or.inl hcontains)
  rw [filter?_eq, hselect]
  by_cases hnone : f.scenarios = []
  · rw [pick_of_eq_nil hnone]
    exact if_pos hcontains
  · rw [pick_of_ne_nil hnone, List.filterMap_some, if_neg hnone]

theorem filter?_eq_none (hf : f.line ≠ n)
    (h : ∀ e ∈ f.scenarios, (Filter.lines ⟨n, n⟩).select? f e = none) :
    f.filter? (.lines ⟨n, n⟩) = none := by
  rw [filter?_eq]
  by_cases hnone : f.scenarios = []
  · rw [pick_of_eq_nil hnone]
    exact if_neg (LineRange.contains_single_iff.not.2 hf)
  · rw [pick_of_ne_nil hnone, if_pos (List.filterMap_eq_nil_iff.2 h)]

/-- A line in one entry keeps of the feature what it keeps of that entry. -/
theorem filter?_of_mem_lines (hf : f.line ≠ n) (hnodup : (f.scenarios.flatMap Entry.lines).Nodup)
    {e e' : Entry} (he : e ∈ f.scenarios) (hn : n ∈ e.lines)
    (hselect : (Filter.lines ⟨n, n⟩).select? f e = some e') :
    f.filter? (.lines ⟨n, n⟩) = some { f with scenarios := [e'] } := by
  obtain ⟨s, t, hsplit⟩ := List.append_of_mem he
  rw [hsplit, List.flatMap_append, List.flatMap_cons, List.nodup_append,
    List.nodup_append] at hnodup
  obtain ⟨-, ⟨-, -, ht⟩, hs⟩ := hnodup
  have hkept : f.scenarios.filterMap ((Filter.lines ⟨n, n⟩).select? f) = [e'] := by
    have hs' : s.filterMap ((Filter.lines ⟨n, n⟩).select? f) = [] := by
      refine List.filterMap_eq_nil_iff.2 fun x hx => ?_
      refine Filter.select?_eq_none_of_notMem hf fun hmem => ?_
      exact hs n (List.mem_flatMap.2 ⟨x, hx, hmem⟩) n (List.mem_append_left _ hn) rfl
    have ht' : t.filterMap ((Filter.lines ⟨n, n⟩).select? f) = [] := by
      refine List.filterMap_eq_nil_iff.2 fun x hx => ?_
      refine Filter.select?_eq_none_of_notMem hf fun hmem => ?_
      exact ht n hn n (List.mem_flatMap.2 ⟨x, hx, hmem⟩) rfl
    rw [hsplit, List.filterMap_append, List.filterMap_cons, hselect, hs', ht', List.nil_append]
  rw [filter?_eq, pick_of_ne_nil (List.ne_nil_of_mem he), hkept]
  rfl

end Feature

/-! ## Documents -/

/-- The lines of the entries of a document strictly increase, and none is that of the feature. -/
theorem Feature.entry_lines_of_parse {source : String} {f : Feature}
    (h : parse source = .ok ⟨[f]⟩) : (∀ e ∈ f.scenarios, ∀ l ∈ e.lines, f.line ≠ l) ∧
      (f.scenarios.flatMap Entry.lines).Pairwise (· < ·) := by
  obtain ⟨hfirst, hrest⟩ := List.pairwise_cons.1
    (Feature.pairwise_lines_of_parse h (List.mem_singleton_self f))
  refine ⟨fun e he l hl => ?_, (List.pairwise_append.1 hrest).2.1⟩
  exact (hfirst l (List.mem_append_right _ (List.mem_flatMap.2 ⟨e, he, hl⟩))).ne

/-- The line of a data row keeps of a document the outline with the header and that row. -/
theorem Feature.filter?_row_of_parse {source : String} {f : Feature}
    (h : parse source = .ok ⟨[f]⟩) {n : ℕ} {o : Outline} (ho : .outline o ∈ f.scenarios)
    {row : Row} (hrow : row ∈ o.examples.dataRows) (hline : row.line? = some n) :
    ∃ header, o.examples.WellShaped ∧ o.examples.header? = some header ∧
      f.filter? (.lines ⟨n, n⟩) =
        some { f with scenarios := [.outline (o.withRow header row)] } := by
  obtain ⟨hne, hentries⟩ := Feature.entry_lines_of_parse h
  have htable : o.examples.WellShaped := by
    refine Feature.wellShaped_of_parse h (List.mem_singleton_self f) _
      (List.mem_append_right _ ?_)
    refine List.mem_flatMap.2 ⟨_, ho, ?_⟩
    exact List.mem_append_right _ (List.mem_singleton.2 rfl)
  have hmem : n ∈ o.examples.lines :=
    List.mem_filterMap.2 ⟨row, (List.drop_sublist 1 o.examples.rows).subset hrow, hline⟩
  have hmem' : n ∈ Entry.lines (.outline o) :=
    List.mem_cons_of_mem _ (List.mem_append_right _ hmem)
  have hheading : o.line ≠ n := by
    have hentry := (List.pairwise_flatMap.1 hentries).1 _ ho
    exact ((List.pairwise_cons.1 hentry).1 n (List.mem_append_right _ hmem)).ne
  obtain ⟨header, hheader⟩ : ∃ header, o.examples.header? = some header :=
    Option.ne_none_iff_exists'.1 (by simpa [Table.header?] using htable.rows_ne_nil)
  refine ⟨header, htable, hheader, ?_⟩
  exact Feature.filter?_of_mem_lines (hne _ ho n hmem') (hentries.imp Nat.ne_of_lt) ho hmem'
    (Filter.select?_row htable (hne _ ho n hmem') hheading hheader hrow hline)

theorem FeatureSet.filter_singleton (φ : Filter) (f : Feature) :
    FeatureSet.filter φ ⟨[f]⟩ = ⟨(f.filter? φ).toList⟩ := by
  unfold FeatureSet.filter
  rw [List.filterMap_cons]
  cases f.filter? φ with
  | none => rfl
  | some f' => rfl

/-- **One line of a document selects what is written on it.** The line of the feature keeps
everything, the line of a scenario or an outline keeps that entry as it is, and the line of a data
row keeps its outline with the header and that row, which expands to the one scenario that the whole
outline has on this line. Any other line keeps nothing. -/
theorem filter_line_of_parse {source : String} {f : Feature} (h : parse source = .ok ⟨[f]⟩) {n : ℕ}
    (hn : n < LineRange.limit) : ∃ r, LineRange.parse n.repr = .ok r ∧
      (n = f.line → FeatureSet.filter (.lines r) ⟨[f]⟩ = ⟨[f]⟩) ∧
      (∀ e ∈ f.scenarios, n = e.line →
        FeatureSet.filter (.lines r) ⟨[f]⟩ = ⟨[{ f with scenarios := [e] }]⟩) ∧
      (∀ o, .outline o ∈ f.scenarios → ∀ row ∈ o.examples.dataRows, row.line? = some n →
        ∃ header, o.examples.header? = some header ∧
          FeatureSet.filter (.lines r) ⟨[f]⟩ =
            ⟨[{ f with scenarios := [.outline (o.withRow header row)] }]⟩ ∧
          ∀ scenarios, o.expand = .ok scenarios →
            ∃ sc, scenarios.filter (fun sc => sc.line == n) = [sc] ∧
              (o.withRow header row).expand = .ok [sc]) ∧
      (n ≠ f.line → (∀ e ∈ f.scenarios, n ≠ e.line) →
        (∀ o, .outline o ∈ f.scenarios → ∀ row ∈ o.examples.dataRows, row.line? ≠ some n) →
        FeatureSet.filter (.lines r) ⟨[f]⟩ = .empty) := by
  obtain ⟨hne, hentries⟩ := Feature.entry_lines_of_parse h
  simp only [FeatureSet.filter_singleton]
  refine ⟨⟨n, n⟩, LineRange.parse_repr hn, ?_, ?_, ?_, ?_⟩
  · rintro rfl
    rw [f.filter?_of_line]
    rfl
  · rintro e he rfl
    have hmem : e.line ∈ e.lines := List.mem_cons_self
    rw [Feature.filter?_of_mem_lines (hne e he _ hmem) (hentries.imp Nat.ne_of_lt) he hmem
      (Filter.select?_of_line f e)]
    rfl
  · intro o ho row hrow hline
    obtain ⟨header, htable, hheader, hfilter⟩ := Feature.filter?_row_of_parse h ho hrow hline
    refine ⟨header, hheader, by rw [hfilter]; rfl, fun scenarios hexpand => ?_⟩
    exact Outline.expand_withRow htable hheader hrow hline hexpand
  · intro hf hheadings hrows
    rw [Feature.filter?_eq_none hf.symm fun e he => ?_]
    · rfl
    · refine Filter.select?_eq_none hf.symm (hheadings e he).symm ?_
      rintro o rfl
      exact hrows o he

/-- The last line of a document is the second row of an outline: that row is left of the outline,
and nothing of the scenario before it. -/
theorem filter_line_of_parse_row : ∃ source f o header row,
    source = "Feature: f\nScenario: s\nGiven x\nScenario Outline: o\nGiven <a>\n" ++
      "Examples:\n| a |\n| 1 |\n| x |" ∧
    parse source = .ok ⟨[f]⟩ ∧ 9 < LineRange.limit ∧ f.scenarios.length = 2 ∧
    .outline o ∈ f.scenarios ∧ row ∈ o.examples.dataRows ∧ row.line? = some 9 ∧
    o.examples.header? = some header ∧ LineRange.parse "9" = .ok ⟨9, 9⟩ ∧
    FeatureSet.filter (.lines ⟨9, 9⟩) ⟨[f]⟩ =
      ⟨[{ f with scenarios := [.outline (o.withRow header row)] }]⟩ ∧
    (o.withRow header row).expand =
      .ok [⟨"o", 9, [], [⟨⟨.step .given, "Given", 5⟩, "x", [], none, 5⟩]⟩] := by
  have h : parse ("Feature: f\nScenario: s\nGiven x\nScenario Outline: o\nGiven <a>\n" ++
      "Examples:\n| a |\n| 1 |\n| x |") =
      .ok ⟨[⟨"f", 1, [], [], none, [.scenario ⟨"s", 2, [], [⟨⟨.step .given, "Given", 3⟩, "x", [],
        none, 3⟩]⟩, .outline ⟨⟨"o", 4, [], [⟨⟨.step .given, "Given", 5⟩,
        "\x7b\x7b<a>\x7d\x7d", [], none, 5⟩]⟩, ⟨[[⟨"a", 7⟩], [⟨"1", 8⟩], [⟨"x", 9⟩]]⟩⟩]⟩]⟩ := by
    decide +kernel
  have hlimit : 9 < LineRange.limit := by decide
  obtain ⟨r, hr, -, -, hrow, -⟩ := filter_line_of_parse h hlimit
  have hparse : LineRange.parse "9" = .ok ⟨9, 9⟩ := by decide +kernel
  obtain rfl : r = ⟨9, 9⟩ := Except.ok.inj (hr.symm.trans hparse)
  obtain ⟨header, hheader, hfilter, -⟩ := hrow _ (List.mem_cons_of_mem _ List.mem_cons_self) _
    (List.mem_cons_of_mem _ List.mem_cons_self) rfl
  cases hheader
  exact ⟨_, _, _, _, _, rfl, h, hlimit, rfl, List.mem_cons_of_mem _ List.mem_cons_self,
    List.mem_cons_of_mem _ List.mem_cons_self, rfl, rfl, hparse, hfilter, by decide +kernel⟩

end FeatureDoc
