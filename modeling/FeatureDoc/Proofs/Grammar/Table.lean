import FeatureDoc.Proofs.Grammar.Line

/-!
# Reading a table

A row is a line of cells, and its reader is a reader of lines (`readsLine_row`). In a text, a line
that starts with a cell holds nothing else, so the only error in a table is a row of another width.

* `rowReader n` reads a row of `n` cells; rows of one width are a loop of it
  (`readRows_repeats`).
* The first row of a table fixes the width for the others. `Reads.family` is the law for a reader
  that takes a parameter from the tokens ahead, and `reads_tableReader` the one for tables.
-/

namespace FeatureDoc

open FeatureDoc.Part

/-! ## Rows -/

/-- A line of `n` cells. -/
def IsRow (n : Nat) (l : List Token) : Prop := l.length = n ∧ ∀ t ∈ l, t.isCell = true

namespace Grammar

theorem cells_iff {n : Nat} {ts rest : List Token} :
    cells n ts rest ↔ ∃ l, ts = l ++ rest ∧ IsRow n l := by
  induction n generalizing ts with
  | zero =>
    constructor
    · rintro rfl
      exact ⟨[], rfl, rfl, by simp⟩
    · rintro ⟨l, rfl, hlen, -⟩
      rw [List.eq_nil_of_length_eq_zero hlen]
      rfl
  | succ n ih =>
    constructor
    · rintro ⟨mid, ⟨t, ht, rfl⟩, hcells⟩
      obtain ⟨l, rfl, hlen, hl⟩ := ih.1 hcells
      refine ⟨t :: l, rfl, by rw [List.length_cons, hlen], List.forall_mem_cons.2 ⟨?_, hl⟩⟩
      simp [Token.isCell, ht]
    · rintro ⟨_ | ⟨t, l⟩, rfl, hlen, hl⟩
      · cases hlen
      · rw [List.forall_mem_cons] at hl
        refine ⟨l ++ rest, ⟨t, by simpa [Token.isCell] using hl.1, rfl⟩, ih.2 ⟨l, rfl, ?_, hl.2⟩⟩
        exact Nat.succ.inj hlen

theorem endsLine_of_isCell {t : Token} (h : t.isCell = true) : t.kind.endsLine = false := by
  rw [Token.isCell, beq_iff_eq] at h
  rw [h]
  rfl

/-- A row is a line of cells. -/
theorem row_eq (n : Nat) : row n = line (IsRow n) * lineEnd := by
  ext ts rest
  constructor
  · rintro ⟨mid, hcells, hend⟩
    obtain ⟨l, rfl, hl⟩ := cells_iff.1 hcells
    exact ⟨mid, ⟨l, rfl, fun t ht => endsLine_of_isCell (hl.2 t ht), (lineEnd_iff.1 hend).1, hl⟩,
      hend⟩
  · rintro ⟨mid, ⟨l, rfl, -, -, hl⟩, hend⟩
    exact ⟨mid, cells_iff.2 ⟨l, rfl, hl⟩, hend⟩

end Grammar

theorem takeWhile_isCell_eq_nil {ts : List Token} (h : (peek ts).kind.endsLine = true) :
    ts.takeWhile Token.isCell = [] := by
  rcases ts with _ | ⟨t, ts⟩
  · rfl
  · apply List.takeWhile_cons_of_neg
    intro hcell
    rw [peek_cons, Grammar.endsLine_of_isCell hcell] at h
    cases h

theorem takeWhile_isCell_eq_takeLine {ts : List Token} (h : ∀ t ∈ takeLine ts, t.isCell = true) :
    ts.takeWhile Token.isCell = takeLine ts := by
  conv_lhs => rw [← takeLine_append_dropLine ts]
  rw [List.takeWhile_append_of_pos h, takeWhile_isCell_eq_nil (endsLine_peek_dropLine ts),
    List.append_nil]

theorem endsLine_dropWhile_isCell_iff {ts : List Token} :
    (peek (ts.dropWhile Token.isCell)).kind.endsLine = true ↔
      ts.takeWhile Token.isCell = takeLine ts := by
  have hsplit := List.takeWhile_append_dropWhile (p := Token.isCell) (l := ts)
  constructor
  · intro h
    conv_rhs => rw [← hsplit]
    refine (takeLine_append (fun t ht => ?_) h).symm
    exact Grammar.endsLine_of_isCell (List.mem_takeWhile_imp ht)
  · intro h
    have hdrop := (h ▸ hsplit).trans (takeLine_append_dropLine ts).symm
    rw [List.append_cancel_left hdrop]
    exact endsLine_peek_dropLine ts

/-- A row is accepted if and only if its line holds only cells. -/
theorem Table.readRow_eq_ok {ts rest : List Token} {row : Row} :
    Table.readRow ts = .ok (row, rest) ↔ (∀ t ∈ takeLine ts, t.isCell = true) ∧
      row = (takeLine ts).map Cell.ofToken ∧ rest = skipNewline (dropLine ts) := by
  have hsplit := List.takeWhile_append_dropWhile (p := Token.isCell) (l := ts)
  dsimp only [readRow]
  constructor
  · intro h
    split at h
    · next hends =>
      have hline := endsLine_dropWhile_isCell_iff.1 hends
      have hdrop := (hline ▸ hsplit).trans (takeLine_append_dropLine ts).symm
      cases h
      rw [hline, List.append_cancel_left hdrop]
      exact ⟨fun t ht => List.mem_takeWhile_imp (hline ▸ ht), rfl, rfl⟩
    · cases h
  · rintro ⟨hcells, rfl, rfl⟩
    have hline := takeWhile_isCell_eq_takeLine hcells
    have hdrop := (hline ▸ hsplit).trans (takeLine_append_dropLine ts).symm
    rw [if_pos (endsLine_dropWhile_isCell_iff.2 hline), hline, List.append_cancel_left hdrop]

/-- In a text, a line that starts with a cell holds only cells. -/
theorem Stream.isCell_of_mem_takeLine {ts : List Token} (h : Stream ts)
    (hcell : (peek ts).isCell = true) : ∀ t ∈ takeLine ts, t.isCell = true := by
  induction ts with
  | nil => cases hcell
  | cons t ts ih =>
    rw [peek_cons] at hcell
    rw [takeLine_cons (Grammar.endsLine_of_isCell hcell), List.forall_mem_cons]
    refine ⟨hcell, ?_⟩
    rcases ts with _ | ⟨u, ts⟩
    · simp [takeLine]
    · have hkind : t.kind = .tableData := beq_iff_eq.1 hcell
      rcases ((List.isChain_cons_cons.1 h.isChain).1.cell hkind).2 with hu | hu
      · exact ih h.tail (beq_iff_eq.2 hu)
      · rw [takeLine_cons_of_endsLine hu]
        simp

/-- Read a row of `n` cells that starts with a cell. -/
def rowReader (n : Nat) (ts : List Token) : Parsed Row :=
  if (peek ts).isCell then
    (Table.readRow ts).andThen fun row rest =>
      if row.length = n then .ok (row, rest)
      else .error ⟨.raggedRow row.length n (peek ts).line, rest⟩
  else .error ⟨.raggedRow 0 n (peek ts).line, ts⟩

theorem IsRow.isCell_peek {n : Nat} {ts : List Token} (h : IsRow (n + 1) (takeLine ts)) :
    (peek ts).isCell = true := by
  rcases ts with _ | ⟨t, ts⟩
  · cases h.1
  · by_cases ht : t.kind.endsLine = true
    · have := h.1
      rw [takeLine_cons_of_endsLine ht] at this
      cases this
    · rw [takeLine_cons (by simpa using ht)] at h
      exact h.2 t List.mem_cons_self

theorem rowReader_eq_ok {n : Nat} {ts rest : List Token} {row : Row} :
    rowReader (n + 1) ts = .ok (row, rest) ↔ IsRow (n + 1) (takeLine ts) ∧
      row = (takeLine ts).map Cell.ofToken ∧ rest = skipNewline (dropLine ts) := by
  unfold rowReader
  constructor
  · intro h
    split at h
    · obtain ⟨row', mid, hrow, h⟩ := Parsed.andThen_eq_ok.1 h
      obtain ⟨hcells, rfl, rfl⟩ := Table.readRow_eq_ok.1 hrow
      split at h
      · next hlen =>
        cases h
        exact ⟨⟨by rwa [List.length_map] at hlen, hcells⟩, rfl, rfl⟩
      · cases h
    · cases h
  · rintro ⟨hline, rfl, rfl⟩
    rw [if_pos hline.isCell_peek, Parsed.andThen_eq_ok]
    exact ⟨_, _, Table.readRow_eq_ok.2 ⟨hline.2, rfl, rfl⟩,
      if_pos (by rw [List.length_map, hline.1])⟩

theorem rest_rowReader_suffix (n : Nat) (ts : List Token) :
    (rowReader n ts).rest <:+ ts.dropWhile Token.isCell := by
  unfold rowReader
  split
  · refine Parsed.rest_andThen_suffix ?_ fun row rest => ?_
    · dsimp only [Table.readRow]
      split
      · exact skipNewline_suffix _
      · exact List.suffix_rfl
    · split
      · exact List.suffix_rfl
      · exact List.suffix_rfl
  · next h =>
    rcases ts with _ | ⟨t, ts⟩
    · exact List.suffix_rfl
    · rw [List.dropWhile_cons_of_neg (a := t) h]
      exact List.suffix_rfl

theorem readsLine_row (n : Nat) : ReadsLine (rowReader (n + 1)) (IsRow (n + 1)) where
  inhabited := by
    refine ⟨List.replicate (n + 1) ⟨.tableData, "", 1⟩, fun t ht => ?_, by simp, fun t ht => ?_⟩
    · rw [List.eq_of_mem_replicate ht]
      rfl
    · rw [List.eq_of_mem_replicate ht]
      rfl
  rest_suffix := fun ts => (rest_rowReader_suffix _ ts).trans (List.dropWhile_suffix _)
  rest_eq := fun h => (rowReader_eq_ok.1 h).2.2
  sound := fun _ h => (rowReader_eq_ok.1 h).1
  complete := fun h => ⟨_, _, rowReader_eq_ok.2 ⟨h, rfl, rfl⟩⟩
  ahead := by
    intro l t m a hl ht h m'
    have hends : ∀ m, (peek (t :: m)).kind.endsLine = true := fun _ => ht
    have hok := rowReader_eq_ok.1 h
    rw [takeLine_append hl (hends m)] at hok
    apply rowReader_eq_ok.2
    rw [takeLine_append hl (hends m'), dropLine_append hl (hends m')]
    exact ⟨hok.1, hok.2.1, rfl⟩
  found?_eq_none := by
    intro ts failure hts h
    unfold rowReader at h
    split at h
    · next hcell =>
      rcases Parsed.andThen_eq_error.1 h with h | ⟨row, rest, -, h⟩
      · -- a line that starts with a cell is a row
        have hcells := hts.isCell_of_mem_takeLine hcell
        rw [Table.readRow_eq_ok.2 ⟨hcells, rfl, rfl⟩] at h
        cases h
      · split at h
        · cases h
        · cases h
          rfl
    · cases h
      rfl

/-! ## Rows of one width -/

theorem readRows_of_isCell {width : Option Nat} {ts : List Token} (h : (peek ts).isCell = true) :
    Table.readRows width ts = (Table.readRow ts).andThen fun row rest =>
      if row.length = width.getD row.length then
        (Table.readRows (some row.length) rest).andThen fun rows rest => .ok (row :: rows, rest)
      else .error ⟨.raggedRow row.length (width.getD row.length) (peek ts).line, rest⟩ := by
  rcases ts with _ | ⟨t, ts⟩
  · cases h
  · have ht : t.isCell = true := h
    rw [Table.readRows, dif_pos ht]
    split
    · next failure hrow =>
      rw [hrow]
      rfl
    · next row rest hrow =>
      rw [hrow]
      rfl

theorem readRows_some_eq {n : Nat} {ts : List Token} (h : (peek ts).isCell = true) :
    Table.readRows (some n) ts = (rowReader n ts).andThen fun row rest =>
      (Table.readRows (some n) rest).andThen fun rows rest => .ok (row :: rows, rest) := by
  rw [rowReader, if_pos h, readRows_of_isCell h]
  rcases Table.readRow ts with failure | ⟨row, rest⟩
  · rfl
  · simp only [Parsed.andThen, Option.getD_some]
    by_cases hlen : row.length = n
    · subst hlen
      simp
    · simp [hlen]

theorem readRows_repeats (n : Nat) :
    Repeats (Table.readRows (some n)) (rowReader n) List.cons [] (· = .tableData) where
  more := fun h => readRows_some_eq (beq_iff_eq.2 h)
  done := by
    intro ts h
    rcases ts with _ | ⟨t, ts⟩
    · rw [Table.readRows]
    · rw [Table.readRows, dif_neg (by simpa [Token.isCell] using h)]
  rest_lt := by
    intro ts row rest h hrow
    have hsuffix := Parsed.suffix_of_eq_ok (rest_rowReader_suffix n ts) hrow
    rcases ts with _ | ⟨t, ts⟩
    · cases h
    · have ht : t.isCell = true := beq_iff_eq.2 h
      rw [List.dropWhile_cons_of_pos ht] at hsuffix
      exact Nat.lt_succ_of_le (hsuffix.trans (List.dropWhile_suffix _)).length_le

/-- The first row gives the width. -/
theorem readRows_none_eq {ts : List Token} (h : (peek ts).isCell = true) :
    Table.readRows none ts = Table.readRows (some (ts.takeWhile Token.isCell).length) ts := by
  rw [readRows_of_isCell h, readRows_of_isCell h]
  rcases hrow : Table.readRow ts with failure | ⟨row, rest⟩
  · rfl
  · have hlen : row.length = (ts.takeWhile Token.isCell).length := by
      dsimp only [Table.readRow] at hrow
      split at hrow
      · cases hrow
        exact List.length_map _
      · cases hrow
    simp [Parsed.andThen, hlen]

/-! ## Tables -/

/-- **A reader may take a parameter from the tokens ahead**, provided that the part fixes the
parameter and that it is settled by the tokens up to the one where the reader stops. -/
theorem Reads.family {α : Type} {R : Nat → List Token → Parsed α} {p : Nat → Part}
    {next : Kind → Prop} {w : List Token → Nat} (hR : ∀ n, Reads (R n) (p n) next)
    (hp : ∀ {n ts rest}, p n ts rest → w ts = n)
    (hw : ∀ {xs t m}, (R (w (xs ++ t :: m)) (xs ++ t :: m)).rest = t :: m →
      ∀ m', w (xs ++ t :: m') = w (xs ++ t :: m)) :
    Reads (fun ts => R (w ts) ts) (fun ts rest => ∃ n, p n ts rest) next where
  inhabited := (hR 0).inhabited.mono fun _ _ h => ⟨0, h⟩
  rest_suffix := fun ts => (hR (w ts)).rest_suffix ts
  sound := fun hxs h => ⟨_, (hR _).sound hxs h⟩
  closes := fun hxs h => ((hR _).closes hxs h).mono fun _ _ hp => ⟨_, hp⟩
  ahead := by
    intro xs t m a h m'
    rw [hw (by rw [h]; rfl) m']
    exact (hR _).ahead h m'
  complete := by
    rintro ts rest ⟨n, hn⟩ hk
    rw [hp hn]
    exact (hR n).complete hn hk
  names := (hR _).names
  stuck := fun hts h he => ((hR _).stuck hts h he).mono fun _ _ hp => ⟨_, hp⟩
  ahead_error := by
    intro xs t m e hts h he m'
    rw [hw (by rw [h]; rfl) m']
    exact (hR _).ahead_error hts h he m'

/-- Read a table, which starts with a cell. -/
def tableReader (ts : List Token) : Parsed Table :=
  if (peek ts).kind = .tableData then Table.read ts else refuse .tableData ts

/-- Read a table whose rows have `n` cells. -/
def tableOfWidth (n : Nat) (ts : List Token) : Parsed Table :=
  if (peek ts).kind = .tableData then
    (rowReader n ts).andThen fun row rest =>
      (Table.readRows (some n) rest).andThen fun rows rest => .ok (⟨row :: rows⟩, rest)
  else refuse .tableData ts

theorem row_opens (n : Nat) {D : Kind → Prop} : (Grammar.row (n + 1)).Opens D (· = .tableData) := by
  rintro ts rest ⟨mid, ⟨_, ⟨t, ht, rfl⟩, -⟩, -⟩ -
  exact ht

theorem reads_tableOfWidth (n : Nat) :
    Reads (tableOfWidth (n + 1)) (Grammar.row (n + 1)).plus (· ≠ .tableData) := by
  have hrow : Reads (rowReader (n + 1)) (Grammar.row (n + 1)) fun _ => True := by
    rw [Grammar.row_eq]
    exact (readsLine_row n).reads
  have hrows : Reads (Table.readRows (some (n + 1))) (Grammar.row (n + 1)).star (· ≠ .tableData) :=
    Reads.loop (readRows_repeats _) hrow (row_opens n) (fun _ _ => trivial) fun _ hk => hk
  exact (hrow.andThen (fun row => hrows.map fun rows => (⟨row :: rows⟩ : Table))
    fun _ _ _ _ => trivial).guard (Part.Opens.mul_left (row_opens n)) fun _ => rfl

theorem rest_tableOfWidth_suffix (n : Nat) (ts : List Token) :
    (tableOfWidth n ts).rest <:+ ts.dropWhile Token.isCell := by
  unfold tableOfWidth
  split
  · exact Parsed.rest_andThen_suffix (rest_rowReader_suffix n ts) fun _ rest =>
      Parsed.rest_andThen_suffix (Table.rest_readRows_suffix _ rest) fun _ _ => List.suffix_rfl
  · next h =>
    rcases ts with _ | ⟨t, ts⟩
    · exact List.suffix_rfl
    · rw [List.dropWhile_cons_of_neg (by simpa [Token.isCell] using h)]
      exact List.suffix_rfl

/-- The width of the row at the front is settled by any token after it. -/
theorem takeWhile_isCell_append {xs m : List Token} {t : Token}
    (h : t :: m <:+ (xs ++ t :: m).dropWhile Token.isCell) (m' : List Token) :
    (xs ++ t :: m').takeWhile Token.isCell = (xs ++ t :: m).takeWhile Token.isCell := by
  induction xs with
  | nil =>
    have ht : ¬ t.isCell = true := by
      intro ht
      rw [List.nil_append, List.dropWhile_cons_of_pos ht] at h
      exact absurd (h.trans (List.dropWhile_suffix _)).length_le (by simp)
    rw [List.nil_append, List.nil_append, List.takeWhile_cons_of_neg ht,
      List.takeWhile_cons_of_neg ht]
  | cons x xs ih =>
    by_cases hx : x.isCell = true
    · rw [List.cons_append, List.dropWhile_cons_of_pos hx] at h
      rw [List.cons_append, List.cons_append, List.takeWhile_cons_of_pos hx,
        List.takeWhile_cons_of_pos hx, ih h]
    · rw [List.cons_append, List.cons_append, List.takeWhile_cons_of_neg hx,
        List.takeWhile_cons_of_neg hx]

theorem tableReader_eq (ts : List Token) :
    tableReader ts = tableOfWidth ((ts.takeWhile Token.isCell).length - 1 + 1) ts := by
  unfold tableReader tableOfWidth
  split
  · next h =>
    have hcell : (peek ts).isCell = true := beq_iff_eq.2 h
    have hpos : (ts.takeWhile Token.isCell).length - 1 + 1 =
        (ts.takeWhile Token.isCell).length := by
      rcases ts with _ | ⟨t, ts⟩
      · cases h
      · have ht : t.isCell = true := hcell
        rw [List.takeWhile_cons_of_pos ht]
        rfl
    rw [hpos, Table.read, readRows_none_eq hcell, readRows_some_eq hcell]
    rcases rowReader (ts.takeWhile Token.isCell).length ts with failure | ⟨row, rest⟩
    · rfl
    · simp only [Parsed.andThen]
      rcases Table.readRows (some (ts.takeWhile Token.isCell).length) rest with _ | ⟨rows, rest⟩
      · rfl
      · rfl
  · rfl

/-- A table that was read has a row, and all of its rows have one width. -/
theorem readRows_of_tableReader {ts rest : List Token} {table : Table}
    (h : tableReader ts = .ok (table, rest)) :
    ∃ n, Table.readRows (some (n + 1)) ts = .ok (table.rows, rest) ∧ table.rows ≠ [] := by
  rw [tableReader_eq, tableOfWidth] at h
  split at h
  · next hk =>
    obtain ⟨row, mid, hrow, hmore⟩ := Parsed.andThen_eq_ok.1 h
    obtain ⟨rows, after, hrows, heq⟩ := Parsed.andThen_eq_ok.1 hmore
    obtain ⟨rfl, rfl⟩ := Prod.mk.inj (Except.ok.inj heq)
    exact ⟨_, (readRows_repeats _).cons_ok hk hrow hrows, List.cons_ne_nil _ _⟩
  · cases h

/-- **A table is read** up to the first line that starts with no cell. -/
theorem reads_tableReader : Reads tableReader Grammar.table (· ≠ .tableData) := by
  have h := Reads.family (w := fun ts => (ts.takeWhile Token.isCell).length - 1)
    reads_tableOfWidth (fun {n ts rest} hp => ?_) fun {xs t m} hrest m' => ?_
  · rwa [← funext tableReader_eq] at h
  · obtain ⟨mid, hrow, -⟩ := hp
    rw [Grammar.row_eq, Grammar.line_mul_lineEnd_iff] at hrow
    rw [takeWhile_isCell_eq_takeLine hrow.1.2, hrow.1.1]
    rfl
  · have hsuffix := hrest ▸ rest_tableOfWidth_suffix _ (xs ++ t :: m)
    rw [takeWhile_isCell_append hsuffix m']

/-! ## The tokens of a table -/

namespace Grammar

variable {C : Kind → Prop}

theorem lineEnd_within (h : C .newline) : lineEnd.Within C := by
  apply Within.add (Within.kind h)
  rintro ts _ ⟨rfl, -⟩
  exact Within.one ts ts rfl

theorem table_within (hcell : C .tableData) (hnewline : C .newline) : table.Within C := by
  have hcells : ∀ n, (cells n).Within C := by
    intro n
    induction n with
    | zero => exact Within.one
    | succ n ih => exact (Within.kind hcell).mul ih
  rintro ts rest ⟨n, hrows⟩
  have hrow : (row (n + 1)).Within C := (hcells _).mul (lineEnd_within hnewline)
  exact hrow.mul hrow.star ts rest hrows

end Grammar

end FeatureDoc
