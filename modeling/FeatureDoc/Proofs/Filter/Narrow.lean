import FeatureDoc.Filter.Basic

/-!
# What a filter keeps of an entry

A filter keeps an entry as it is, drops it, or narrows an outline to some rows of its examples.
Dropping is the same as narrowing to no rows, so the decision of a filter is one value: a
`Narrowing`, which is nothing or a test of rows.

* `Filter.narrowing` is the decision of a filter and `Entry.narrow` carries it out;
  `Filter.select?_eq` says that this is what a filter does.
* One narrowing after another is a single one, their meet (`Entry.narrow_bind_narrow`). The meet
  depends neither on order (`Narrowing.meet_comm`) nor on repetition (`Narrowing.meet_self`).
-/

namespace FeatureDoc

/-! ## Rows that are kept -/

namespace Table

variable (t : Table) (p q : Row → Bool)

@[simp] theorem dataRows_retain : (t.retain p).dataRows = t.dataRows.filter p := by
  unfold retain dataRows
  cases t.rows with
  | nil => rfl
  | cons header rows => rfl

@[simp] theorem take_one_rows_retain : (t.retain p).rows.take 1 = t.rows.take 1 := by
  unfold retain dataRows
  cases t.rows with
  | nil => rfl
  | cons header rows => rfl

theorem retain_retain : (t.retain p).retain q = t.retain fun row => p row && q row := by
  rw [retain, dataRows_retain, take_one_rows_retain, List.filter_filter, retain]
  simp only [Bool.and_comm]

/-- Only the header is left if and only if no data row is. -/
theorem size_retain_lt_two : (t.retain p).size < 2 ↔ t.dataRows.filter p = [] := by
  unfold size retain dataRows
  cases t.rows with
  | nil => simp
  | cons header rows =>
    rw [← List.length_eq_zero_iff]
    simp only [List.take_succ_cons, List.take_zero, List.drop_succ_cons, List.drop_zero,
      List.length_append, List.length_cons, List.length_nil]
    omega

end Table

/-! ## Narrowings -/

/-- What to keep of an entry: all of it, or of an outline the rows that pass a test. -/
abbrev Narrowing := Option (Row → Bool)

namespace Narrowing

/-- Keep nothing. -/
def nothing : Narrowing := some fun _ => false

/-- Keep what both keep. -/
def meet : Narrowing → Narrowing → Narrowing
  | none, w => w
  | v, none => v
  | some p, some q => some fun row => p row && q row

theorem meet_comm (v w : Narrowing) : v.meet w = w.meet v := by
  cases v <;> cases w <;> simp [meet, Bool.and_comm]

theorem meet_self (v : Narrowing) : v.meet v = v := by
  cases v <;> simp [meet]

end Narrowing

namespace Entry

/-- Carry out a narrowing. Nothing is left of a scenario without examples, nor of an outline
without a row. -/
def narrow (e : Entry) : Narrowing → Option Entry
  | none => some e
  | some p =>
    match e with
    | .scenario _ => none
    | .outline o =>
      if o.examples.dataRows.filter p = [] then none
      else some (.outline { o with examples := o.examples.retain p })

theorem narrow_nothing (e : Entry) : e.narrow .nothing = none := by
  cases e <;> simp [narrow, Narrowing.nothing]

/-- Narrowing keeps the line and the tags. -/
theorem line_tags_of_narrow {e e' : Entry} {v : Narrowing} (h : e.narrow v = some e') :
    e'.line = e.line ∧ e'.tags = e.tags := by
  unfold narrow at h
  split at h
  · cases h
    exact ⟨rfl, rfl⟩
  · split at h
    · cases h
    · split at h
      · cases h
      · cases h
        exact ⟨rfl, rfl⟩

/-- One narrowing after another is their meet. -/
theorem narrow_bind_narrow (e : Entry) (v w : Narrowing) :
    (e.narrow v).bind (·.narrow w) = e.narrow (v.meet w) := by
  rcases v with _ | p
  · rfl
  rcases w with _ | q
  · exact Option.bind_fun_some (e.narrow (some p))
  rcases e with s | o
  · rfl
  simp only [narrow, Narrowing.meet]
  have hboth : o.examples.dataRows.filter (fun row => p row && q row) =
      (o.examples.dataRows.filter p).filter q := by
    rw [List.filter_filter]
    simp only [Bool.and_comm]
  by_cases hp : o.examples.dataRows.filter p = []
  · simp [hboth, hp]
  · rw [if_neg hp, Option.bind_some]
    simp only [Table.dataRows_retain, Table.retain_retain, hboth]

end Entry

/-! ## The decision of a filter -/

namespace Filter

/-- What a filter keeps of an entry. A scenario has the tags of its feature, too; a range of lines
that covers the line of the feature or of the entry keeps all of it. -/
def narrowing (φ : Filter) (f : Feature) (e : Entry) : Narrowing :=
  match φ with
  | .tags x => if x.holds (f.tags ++ e.tags) then none else .nothing
  | .lines r => if r.contains f.line || r.contains e.line then none else some r.containsRow

/-- **A filter keeps what its narrowing says.** -/
theorem select?_eq (φ : Filter) (f : Feature) (e : Entry) :
    φ.select? f e = e.narrow (φ.narrowing f e) := by
  cases φ with
  | tags x =>
    simp only [select?, narrowing]
    split
    · rfl
    · exact e.narrow_nothing.symm
  | lines r =>
    simp only [select?, narrowing]
    split
    · rfl
    · cases e with
      | scenario s => rfl
      | outline o =>
        simp only [selectRows?, Entry.narrow, Table.size_retain_lt_two]
        split <;> rfl

section Lines

variable {f : Feature} {e : Entry} {r : LineRange}

/-- A range of lines with the feature or the entry in it keeps all of the entry. -/
theorem select?_lines_of_contains (h : r.contains f.line = true ∨ r.contains e.line = true) :
    (Filter.lines r).select? f e = some e :=
  if_pos (Bool.or_eq_true_iff.2 h)

/-- A range of lines with neither in it keeps the rows in the range. -/
theorem select?_lines_of_not_contains (hf : r.contains f.line = false)
    (he : r.contains e.line = false) :
    (Filter.lines r).select? f e = e.narrow (some r.containsRow) := by
  rw [select?_eq, narrowing, hf, he]
  rfl

end Lines

/-- The decision about an entry depends on its line and its tags, and on those of its feature. -/
theorem narrowing_congr (φ : Filter) {f f' : Feature} {e e' : Entry} (hline : f'.line = f.line)
    (htags : f'.tags = f.tags) (heline : e'.line = e.line) (hetags : e'.tags = e.tags) :
    φ.narrowing f' e' = φ.narrowing f e := by
  cases φ <;> simp only [narrowing, hline, htags, heline, hetags]

/-- Selecting twice is one narrowing. -/
theorem select?_bind_select? (φ ψ : Filter) (f : Feature) (e : Entry) :
    (φ.select? f e).bind (ψ.select? f) =
      e.narrow ((φ.narrowing f e).meet (ψ.narrowing f e)) := by
  rw [select?_eq, ← Entry.narrow_bind_narrow]
  cases h : e.narrow (φ.narrowing f e) with
  | none => rfl
  | some e' =>
    obtain ⟨hline, htags⟩ := Entry.line_tags_of_narrow h
    rw [Option.bind_some, Option.bind_some, select?_eq, ψ.narrowing_congr rfl rfl hline htags]

end Filter

end FeatureDoc
