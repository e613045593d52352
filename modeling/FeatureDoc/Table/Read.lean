import FeatureDoc.Table.Basic
import FeatureDoc.Token.Consume

/-!
# Reading a table

A table is a run of lines that start with a cell. All of its rows are as wide as the first one.
-/

namespace FeatureDoc

/-- Whether a token is a cell of a table. -/
def Token.isCell (t : Token) : Bool := t.kind == .tableData

/-- The cell that a token stands for. -/
def Cell.ofToken (t : Token) : Cell := ⟨t.literal, t.line⟩

namespace Table

/-- Read the cells of a row, up to the end of the line, and that end. -/
def readRow (ts : List Token) : Parsed Row :=
  let rest := ts.dropWhile Token.isCell
  if (peek rest).kind.endsLine then
    .ok ((ts.takeWhile Token.isCell).map .ofToken, skipNewline rest)
  else refuse .tableData rest

/-- Reading a row that starts with a cell consumes that cell. -/
theorem rest_readRow_suffix {t : Token} (ts : List Token) (h : t.isCell = true) :
    (readRow (t :: ts)).rest <:+ ts := by
  have hdrop : (t :: ts).dropWhile Token.isCell <:+ ts := by
    rw [List.dropWhile_cons_of_pos h]
    exact List.dropWhile_suffix _
  dsimp only [readRow]
  split
  · exact (skipNewline_suffix _).trans hdrop
  · exact hdrop

/-- Read rows as long as lines start with a cell. The first row fixes the width, unless it is
given. -/
def readRows (width : Option Nat) : List Token → Parsed (List Row)
  | [] => .ok ([], [])
  | t :: ts =>
    if _hcell : t.isCell = true then
      match _h : readRow (t :: ts) with
      | .error failure => .error failure
      | .ok (row, rest) =>
        if row.length = width.getD row.length then
          (readRows (some row.length) rest).andThen fun rows rest => .ok (row :: rows, rest)
        else .error ⟨.raggedRow row.length (width.getD row.length) t.line, rest⟩
    else .ok ([], t :: ts)
termination_by ts => ts.length
decreasing_by
  have := (rest_readRow_suffix ts _hcell).length_le
  rw [_h] at this
  exact Nat.lt_succ_of_le this

theorem rest_readRows_suffix (width : Option Nat) (ts : List Token) :
    (readRows width ts).rest <:+ ts := by
  fun_induction readRows width ts with
  | case1 => exact List.suffix_rfl
  | case2 width t ts hcell failure h =>
    have hrow := rest_readRow_suffix ts hcell
    rw [h] at hrow
    exact hrow.trans (List.suffix_cons t ts)
  | case3 width t ts hcell row rest h hwidth ih =>
    have hrow := rest_readRow_suffix ts hcell
    rw [h] at hrow
    exact Parsed.rest_andThen_suffix (ih.trans (hrow.trans (List.suffix_cons t ts)))
      fun _ _ => List.suffix_rfl
  | case4 width t ts hcell row rest h hwidth =>
    have hrow := rest_readRow_suffix ts hcell
    rw [h] at hrow
    exact hrow.trans (List.suffix_cons t ts)
  | case5 => exact List.suffix_rfl

/-- Read a table. -/
def read (ts : List Token) : Parsed Table :=
  (readRows none ts).andThen fun rows rest => .ok (⟨rows⟩, rest)

theorem rest_read_suffix (ts : List Token) : (read ts).rest <:+ ts :=
  Parsed.rest_andThen_suffix (rest_readRows_suffix none ts) fun _ _ => List.suffix_rfl

end Table

end FeatureDoc
