import FeatureDoc.Proofs.Outline.Expansion
import Mathlib.Data.List.Induction
import Mathlib.Data.List.Nodup

/-!
# The order of the columns

A value is looked up by the name of its column, so it does not matter in which order the columns of
the examples stand. Only the message about an unknown name lists the names in their order.

* `arrange order xs` takes the members of a list in another order; `Outline.reorder` does so with
  the columns of the examples.
* `Table.Columnar` says that the columns of a table can be told apart.
* `Record.get?_of_perm` says that a record does not depend on the order of its entries, and the
  lemmas after it that nothing does that is made with it.
* `Outline.expand_reorder` is the main statement.
-/

namespace FeatureDoc

/-! ## Another order -/

section Arrange

variable {α β : Type} {order : List ℕ} {xs : List α}

/-- The members of a list whose indices are given, in the order of the indices. -/
def arrange (order : List ℕ) (xs : List α) : List α := order.filterMap fun i => xs[i]?

theorem map_arrange (f : α → β) (order : List ℕ) (xs : List α) :
    (arrange order xs).map f = arrange order (xs.map f) := by
  simp [arrange, List.map_filterMap]

theorem arrange_range (xs : List α) : arrange (List.range xs.length) xs = xs := by
  induction xs using List.reverseRecOn with
  | nil => rfl
  | append_singleton xs x ih =>
    have hfront : arrange (List.range xs.length) (xs ++ [x]) = xs := by
      rw [arrange] at ih
      conv_rhs => rw [← ih]
      refine List.filterMap_congr fun i hi => ?_
      exact List.getElem?_append_left (List.mem_range.1 hi)
    rw [arrange] at hfront
    simp [arrange, List.range_succ, hfront]

theorem perm_arrange (h : order.Perm (List.range xs.length)) : (arrange order xs).Perm xs := by
  have hperm : (arrange order xs).Perm (arrange (List.range xs.length) xs) := h.filterMap _
  rwa [arrange_range] at hperm

theorem arrange_zip {ys : List β} (h : xs.length = ys.length) (order : List ℕ) :
    arrange order (xs.zip ys) = (arrange order xs).zip (arrange order ys) := by
  induction order with
  | nil => rfl
  | cons i order ih =>
    simp only [arrange, List.filterMap_cons] at ih ⊢
    by_cases hi : i < xs.length
    · have hzip : (xs.zip ys)[i]? = some (xs[i], ys[i]) := by
        rw [List.getElem?_eq_getElem (by rw [List.length_zip]; omega), List.getElem_zip]
      rw [hzip, List.getElem?_eq_getElem hi, List.getElem?_eq_getElem (h ▸ hi), ih,
        List.zip_cons_cons]
    · have hzip : (xs.zip ys)[i]? = none := by
        apply List.getElem?_eq_none
        rw [List.length_zip]
        omega
      rw [hzip, List.getElem?_eq_none (by omega), List.getElem?_eq_none (by omega), ih]

end Arrange

/-! ## Tables -/

/-- The columns of a table in another order. -/
def Table.reorder (order : List ℕ) (t : Table) : Table := ⟨t.rows.map (arrange order)⟩

/-- The columns of the examples in another order. -/
def Outline.reorder (order : List ℕ) (o : Outline) : Outline :=
  { o with examples := o.examples.reorder order }

/-- The columns of a table can be told apart: it has a header whose names are not repeated, its rows
are as wide as the header, and the cells of a row stand on one line. -/
structure Table.Columnar (t : Table) : Prop where
  /-- There is a header. -/
  rows_ne_nil : t.rows ≠ []
  /-- The rows have one width. -/
  length_eq : ∀ row ∈ t.rows, row.length = t.width
  /-- No name is repeated. -/
  nodup : ∀ header ∈ t.header?, (header.map Cell.literal).Nodup
  /-- A row stands on one line. -/
  line_eq : ∀ row ∈ t.rows, ∀ cell ∈ row, ∀ cell' ∈ row, cell.line = cell'.line

namespace Table

variable {t : Table} {order : List ℕ}

theorem header?_reorder (order : List ℕ) (t : Table) :
    (t.reorder order).header? = t.header?.map (arrange order) := by
  rw [header?, header?, reorder, List.head?_map]

theorem dataRows_reorder (order : List ℕ) (t : Table) :
    (t.reorder order).dataRows = t.dataRows.map (arrange order) := by
  rw [dataRows, dataRows, reorder, List.map_drop]

theorem Columnar.perm_reorder (h : t.Columnar) (horder : order.Perm (List.range t.width))
    {row : Row} (hrow : row ∈ t.rows) : (arrange order row).Perm row := by
  apply perm_arrange
  rwa [h.length_eq row hrow]

end Table

theorem Row.line?_of_perm {row row' : Row} (h : row'.Perm row)
    (hline : ∀ cell ∈ row, ∀ cell' ∈ row, cell.line = cell'.line) : row'.line? = row.line? := by
  rcases row with _ | ⟨cell, row⟩
  · rw [h.eq_nil]
  · rcases row' with _ | ⟨cell', row'⟩
    · exact absurd h.symm.eq_nil (List.cons_ne_nil _ _)
    · exact congrArg some (hline cell' (h.subset List.mem_cons_self) cell List.mem_cons_self)

/-! ## Records -/

namespace Record

variable {r r' : Record} {columns columns' : List String}

theorem get?_eq_some_iff (h : (r.entries.map Prod.fst).Nodup) {name value : String} :
    r.get? name = some value ↔ (name, value) ∈ r.entries := by
  rw [get?, List.lookup_eq_some_iff, ← List.mem_reverse]
  constructor
  · rintro ⟨front, back, heq, -⟩
    simp [heq]
  · intro hmem
    obtain ⟨front, back, heq⟩ := List.append_of_mem hmem
    refine ⟨front, back, heq, fun p hp => ?_⟩
    have hnodup : (r.entries.reverse.map Prod.fst).Nodup := by
      rwa [List.map_reverse, List.nodup_reverse]
    rw [heq, List.map_append, List.nodup_append] at hnodup
    have hne := hnodup.2.2 p.1 (List.mem_map_of_mem hp) name (by simp)
    exact bne_iff_ne.2 hne.symm

/-- **A record does not depend on the order of its entries**, if no name is repeated. -/
theorem get?_of_perm (h : r'.entries.Perm r.entries) (hnodup : (r.entries.map Prod.fst).Nodup)
    (name : String) : r'.get? name = r.get? name := by
  have hnodup' : (r'.entries.map Prod.fst).Nodup := (h.map Prod.fst).nodup_iff.2 hnodup
  ext value
  rw [get?_eq_some_iff hnodup', get?_eq_some_iff hnodup, h.mem_iff]

theorem valueOf_congr (h : ∀ name, r'.get? name = r.get? name) (name : List Char) :
    r'.valueOf name = r.valueOf name := by
  rw [valueOf, valueOf, h]

theorem fillChars_congr (h : ∀ name, r'.get? name = r.get? name) (cs : List Char) :
    r'.fillChars cs = r.fillChars cs := by
  fun_induction fillChars r cs with
  | case1 => rw [fillChars]
  | case2 c cs name rest hname ih =>
    rw [fillChars]
    split
    · next name' rest' hname' =>
      cases hname.symm.trans hname'
      rw [ih, valueOf_congr h]
    · next hnone => cases hname.symm.trans hnone
  | case3 c cs hnone ih =>
    rw [fillChars]
    split
    · next hname => cases hnone.symm.trans hname
    · rw [ih]

theorem fill_congr (h : ∀ name, r'.get? name = r.get? name) : r'.fill = r.fill := by
  funext text
  rw [fill, fill, fillChars_congr h]

end Record

theorem Record.ofRow_reorder {header row : Row} (h : row.length = header.length)
    (order : List ℕ) :
    (Record.ofRow (arrange order header) (arrange order row)).entries =
      arrange order (Record.ofRow header row).entries := by
  rw [ofRow, ofRow, map_arrange, map_arrange, arrange_zip (by simp [h])]

/-! ## Substitution -/

/-- Two errors of an expansion are the same, up to the order in which the columns are listed. -/
inductive ExpandError.SameUpToOrder : ExpandError → ExpandError → Prop where
  /-- They are the same. -/
  | same (e : ExpandError) : SameUpToOrder e e
  /-- They are about the same unknown name. -/
  | unknown (name : String) {columns columns' : List String} (h : columns.Perm columns') :
      SameUpToOrder (.unknownPlaceholder name columns) (.unknownPlaceholder name columns')

section Substitute

open ExpandError (SameUpToOrder)

variable {r r' : Record} {columns columns' : List String}

namespace Record

theorem alike_resolve (h : ∀ name, r'.get? name = r.get? name) (hc : columns.Perm columns')
    (name : List Char) :
    Alike SameUpToOrder (r.resolve columns name) (r'.resolve columns' name) := by
  unfold resolve
  rw [h]
  cases r.get? (String.ofList name) with
  | none => exact .error (.unknown _ hc)
  | some value =>
    dsimp only
    split
    · exact .error (.same _)
    · exact .ok value

theorem alike_substitute (h : ∀ name, r'.get? name = r.get? name) (hc : columns.Perm columns')
    (segs : List Segment) (data : List String) :
    Alike SameUpToOrder (r.substitute columns segs data) (r'.substitute columns' segs data) := by
  induction segs generalizing data with
  | nil =>
    rw [substitute, substitute, fill_congr h]
    exact .ok _
  | cons a segs ih =>
    cases a with
    | char c =>
      rw [substitute, substitute]
      exact (ih data).bind fun _ => .ok _
    | mark p =>
      by_cases hp : p.isData = true
      · rw [substitute_mark hp, substitute_mark hp, fill_congr h]
        exact (ih data.tail).bind fun _ => .ok _
      · obtain ⟨name, rfl⟩ := Placeholder.exists_eq_reference hp
        rw [substitute, substitute]
        refine (alike_resolve h hc name).bind fun value => (ih data).bind fun _ => ?_
        dsimp only
        split
        · exact .ok _
        · exact .ok _

end Record

theorem Step.alike_substitute (h : ∀ name, r'.get? name = r.get? name)
    (hc : columns.Perm columns') (s : Step) :
    Alike SameUpToOrder (s.substitute columns r) (s.substitute columns' r') := by
  rw [substitute, substitute, Record.fill_congr h]
  exact (Record.alike_substitute h hc _ s.data).bind fun _ => .ok _

end Substitute

/-! ## Expansion -/

namespace Outline

open ExpandError (SameUpToOrder)

variable {o : Outline} {order : List ℕ}

theorem alike_instantiate {r r' : Record} {columns columns' : List String} {row row' : Row}
    (h : ∀ name, r'.get? name = r.get? name) (hc : columns.Perm columns')
    (hline : row'.line? = row.line?) (order : List ℕ) :
    Alike SameUpToOrder (o.instantiate columns row r)
      ((o.reorder order).instantiate columns' row' r') := by
  rw [instantiate, instantiate, hline]
  exact (Alike.mapM fun s _ => s.alike_substitute h hc).bind fun _ => .ok _

/-- The expansion row by row, with the columns in either order. -/
theorem alike_expand_reorder (h : o.examples.Columnar)
    (horder : order.Perm (List.range o.examples.width)) :
    Alike SameUpToOrder o.expand (o.reorder order).expand := by
  obtain ⟨header, rows, hrows⟩ := List.exists_cons_of_ne_nil h.rows_ne_nil
  have hheader : o.examples.header? = some header := by simp [Table.header?, hrows]
  have hmem : header ∈ o.examples.rows := by simp [hrows]
  have hdata : ∀ row ∈ o.examples.dataRows, row ∈ o.examples.rows := fun row hrow =>
    List.mem_of_mem_drop hrow
  have hwidth : ∀ row ∈ o.examples.dataRows, row.length = header.length := fun row hrow => by
    rw [h.length_eq row (hdata row hrow), Table.width_of_header? hheader]
  have hheader' : (o.reorder order).examples.header? = some (arrange order header) := by
    rw [Outline.reorder, Table.header?_reorder, hheader, Option.map_some]
  have hwidth' : ∀ row ∈ (o.reorder order).examples.dataRows,
      row.length = (arrange order header).length := by
    rw [Outline.reorder, Table.dataRows_reorder, List.forall_mem_map]
    intro row hrow
    rw [(h.perm_reorder horder (hdata row hrow)).length_eq,
      (h.perm_reorder horder hmem).length_eq, hwidth row hrow]
  have hcolumns := (h.perm_reorder horder hmem).symm.map Cell.literal
  rw [expand_of_length_eq hheader hwidth, expand_of_length_eq hheader' hwidth', Outline.reorder,
    Table.dataRows_reorder, List.mapM_map]
  refine Alike.mapM fun row hrow => ?_
  have hperm := h.perm_reorder horder (hdata row hrow)
  have hlen := hwidth row hrow
  refine alike_instantiate (Record.get?_of_perm ?_ ?_) hcolumns
    (Row.line?_of_perm hperm (h.line_eq row (hdata row hrow))) order
  · rw [Record.ofRow_reorder hlen]
    apply perm_arrange
    simpa [Record.ofRow, hlen, Table.width_of_header? hheader] using horder
  · rw [Record.ofRow, List.map_fst_zip (by simp [hlen])]
    exact h.nodup header hheader

/-- **The order of the columns does not matter.** With the columns of its examples in another order,
an outline expands to the same scenarios, or fails for the same reason. -/
theorem expand_reorder (h : o.examples.Columnar)
    (horder : order.Perm (List.range o.examples.width)) :
    (∀ scenarios, (o.reorder order).expand = .ok scenarios ↔ o.expand = .ok scenarios) ∧
      (∀ e, o.expand = .error e → ∃ e', (o.reorder order).expand = .error e' ∧
        e.SameUpToOrder e') ∧
      ∀ e', (o.reorder order).expand = .error e' → ∃ e, o.expand = .error e ∧
        e.SameUpToOrder e' := by
  have halike := alike_expand_reorder h horder
  exact ⟨fun scenarios => halike.eq_ok_iff.symm, fun e => halike.exists_of_error_left,
    fun e' => halike.exists_of_error_right⟩

/-- The last column comes to the front: the scenarios are the same, and an unknown name is reported
with the columns in their new order. -/
theorem expand_reorder_last_first :
    ∃ o o' : Outline, o.examples.Columnar ∧ [2, 0, 1].Perm (List.range o.examples.width) ∧
      (o.reorder [2, 0, 1]).examples.literals =
        [["key", "count", "name"], ["x", "3", "Ann"], ["y", "", "Bob"]] ∧
      (o.reorder [2, 0, 1]).expand = .ok
        [⟨"o", 5, ["t"], [⟨⟨.step .given, "Given", 2⟩, "{{d}} of Ann {{s}}",
            ["3", "x/3"], some ⟨[[⟨"Ann <other>", 3⟩]]⟩, 2⟩]⟩,
          ⟨"o", 6, ["t"], [⟨⟨.step .given, "Given", 2⟩, " of Bob {{s}}",
            ["y/"], some ⟨[[⟨"Bob <other>", 3⟩]]⟩, 2⟩]⟩] ∧
      o'.expand = .error (.unknownPlaceholder "other" ["count", "key"]) ∧
      (∃ e, (o'.reorder [1, 0]).expand = .error e ∧
        ExpandError.SameUpToOrder (.unknownPlaceholder "other" ["count", "key"]) e) ∧
      (o'.reorder [1, 0]).expand = .error (.unknownPlaceholder "other" ["key", "count"]) := by
  refine ⟨⟨⟨"o", 1, ["t"], [⟨⟨.step .given, "Given", 2⟩,
      "{{<count>}} of {{<name>}} {{s}}", ["<key>/<count>"],
      some ⟨[[⟨"<name> <other>", 3⟩]]⟩, 2⟩]⟩,
    ⟨[[⟨"count", 4⟩, ⟨"name", 4⟩, ⟨"key", 4⟩], [⟨"3", 5⟩, ⟨"Ann", 5⟩, ⟨"x", 5⟩],
      [⟨"", 6⟩, ⟨"Bob", 6⟩, ⟨"y", 6⟩]]⟩⟩,
    ⟨⟨"p", 1, [], [⟨⟨.step .given, "Given", 2⟩, "{{<other>}}", [], none, 2⟩]⟩,
    ⟨[[⟨"count", 3⟩, ⟨"key", 3⟩], [⟨"3", 4⟩, ⟨"x", 4⟩]]⟩⟩,
    ⟨by decide, by decide, by decide, by decide⟩, by decide, by decide, ?_, by decide +kernel, ?_,
    by decide +kernel⟩
  · rw [(expand_reorder ⟨by decide, by decide, by decide, by decide⟩ (by decide)).1]
    decide +kernel
  · apply (expand_reorder ⟨by decide, by decide, by decide, by decide⟩ (by decide)).2.1
    decide +kernel

end Outline

end FeatureDoc
