/-!
# Tables

A table is a list of rows of cells; its first row is the header, which names the columns. Tables
built by hand may be empty or ragged, so every access that relies on the shape can fail.

* `Table.row` and `Table.records` check the width of the rows that they hand out.
* `Table.retain` keeps the header and the data rows that a test accepts.
* A `Record` is one data row by column name. Where a name is repeated, the last column counts.
-/

namespace FeatureDoc

/-- A cell of a table. -/
structure Cell where
  /-- Its text. -/
  literal : String
  /-- The line on which it stands. -/
  line : Nat
  deriving DecidableEq, Repr

/-- A row of a table. -/
abbrev Row := List Cell

/-- The line of a row is that of its first cell. -/
def Row.line? (row : Row) : Option Nat := row.head?.map Cell.line

/-- Rows of cells, the first of which is the header. -/
structure Table where
  /-- All rows, the header included. -/
  rows : List Row
  deriving DecidableEq, Repr

/-- What is wrong with the shape of a table. -/
inductive TableError where
  /-- The table has no rows. -/
  | missingHeader
  /-- A row, counted from 1, is not as wide as the header. -/
  | malformed (rowNumber actual expected : Nat)
  /-- There is no row of this index. -/
  | rowOutOfRange (index size : Nat)
  deriving DecidableEq, Repr

/-- The wording of a table error. -/
def TableError.message : TableError → String
  | .missingHeader => "table requires a header row"
  | .malformed rowNumber actual expected =>
    "table row " ++ rowNumber.repr ++ " has " ++ actual.repr ++ " cells but expected "
      ++ expected.repr
  | .rowOutOfRange index size =>
    "table row index " ++ index.repr ++ " is out of range for " ++ size.repr ++ " row(s)"

/-- The values of one data row by column name. -/
structure Record where
  /-- Column names and values, in the order of the columns. -/
  entries : List (String × String)
  deriving DecidableEq, Repr

namespace Record

/-- The value of a column; of several columns of one name, that of the last. -/
def get? (r : Record) (name : String) : Option String := r.entries.reverse.lookup name

/-- Put a value under a name into a list that is sorted by name. -/
def put (name value : String) : List (String × String) → List (String × String)
  | [] => [(name, value)]
  | (other, old) :: rest =>
    if name < other then (name, value) :: (other, old) :: rest
    else if name = other then (name, value) :: rest
    else (other, old) :: put name value rest

/-- One pair for each column name, sorted by name. -/
def sorted (r : Record) : List (String × String) :=
  r.entries.foldl (fun pairs entry => put entry.1 entry.2 pairs) []

end Record

namespace Table

/-- The table without rows. -/
def empty : Table := ⟨[]⟩

/-- A table of literals, one row on each line from `firstLine` on. -/
def ofLiterals (rows : List (List String)) (firstLine : Nat) : Table :=
  ⟨(rows.zipIdx firstLine).map fun (literals, line) => literals.map fun s => ⟨s, line⟩⟩

/-- The number of rows, the header included. -/
def size (t : Table) : Nat := t.rows.length

/-- Whether there are no rows. -/
def isEmpty (t : Table) : Bool := t.rows.isEmpty

/-- The first row. -/
def header? (t : Table) : Option Row := t.rows.head?

/-- The rows after the header. -/
def dataRows (t : Table) : List Row := t.rows.drop 1

/-- The line of the first row. -/
def firstLine? (t : Table) : Option Nat := t.header?.bind Row.line?

/-- The number of columns. -/
def width (t : Table) : Nat := (t.header?.map List.length).getD 0

/-- A row of index `index` as it is, if it is as wide as the header. -/
def checkWidth (t : Table) (index : Nat) (row : Row) : Except TableError Row :=
  if row.length = t.width then .ok row
  else .error (.malformed (index + 1) row.length t.width)

/-- The row of an index, which has to be as wide as the header. -/
def row (t : Table) (index : Nat) : Except TableError Row :=
  match t.rows[index]? with
  | none => .error (.rowOutOfRange index t.size)
  | some row => t.checkWidth index row

/-- The texts of the header. -/
def columnNames (t : Table) : Except TableError (List String) :=
  match t.header? with
  | none => .error .missingHeader
  | some header => .ok (header.map Cell.literal)

/-- The data rows by column name; the first row of a wrong width is an error. -/
def records (t : Table) : Except TableError (List Record) := do
  let names ← t.columnNames
  (t.dataRows.zipIdx 1).mapM fun (row, index) => do
    let row ← t.checkWidth index row
    return ⟨names.zip (row.map Cell.literal)⟩

/-- The header and the data rows that `keep` accepts. -/
def retain (t : Table) (keep : Row → Bool) : Table :=
  ⟨t.rows.take 1 ++ t.dataRows.filter keep⟩

/-- Change the text of every cell. -/
def mapLiterals (f : String → String) (t : Table) : Table :=
  ⟨t.rows.map fun row => row.map fun cell => { cell with literal := f cell.literal }⟩

/-- The texts of all cells. -/
def literals (t : Table) : List (List String) := t.rows.map fun row => row.map Cell.literal

end Table

end FeatureDoc
