import FeatureDoc.Step.Placeholder
import FeatureDoc.Table.Basic
import FeatureDoc.Text.Space

/-!
# Substituting the values of a row

The steps of an outline refer to columns in two ways: by placeholders in the text, and by names
between angle brackets in data and table cells.

* `Record.fill` replaces every known name between angle brackets and leaves the rest alone.
* `Row.substitute` resolves the placeholders of a step's text. A value that is a number becomes a
  datum, in its place among the others; any other value becomes prose.
-/

namespace FeatureDoc

/-- Why an outline cannot be expanded. -/
inductive ExpandError where
  /-- The shape of the examples. -/
  | table (e : TableError)
  /-- A reference to a column that does not exist. -/
  | unknownPlaceholder (name : String) (columns : List String)
  /-- A value that looks like a placeholder. -/
  | reservedDelimiter (column value : String)
  deriving DecidableEq, Repr

/-- The wording of an expansion error. -/
def ExpandError.message : ExpandError → String
  | .table e => e.message
  | .unknownPlaceholder name columns =>
    "unknown placeholder '<" ++ name ++ ">'; available columns: "
      ++ String.intercalate ", " columns
  | .reservedDelimiter column value =>
    "value '" ++ value ++ "' in column '" ++ column
      ++ "' contains '\x7b\x7b' or '\x7d\x7d'"

/-! ## Names in data and cells -/

/-- A name between angle brackets at the front of a text, and what comes after it. The name goes up
to the first closing bracket, is not empty and starts with no space. -/
def bracketed? : List Char → Option (List Char × List Char)
  | '<' :: c :: cs =>
    if c = '>' ∨ Text.isSpace c then none
    else
      match cs.dropWhile (· != '>') with
      | [] => none
      | _ :: rest => some (c :: cs.takeWhile (· != '>'), rest)
  | _ => none

theorem length_lt_of_bracketed? {cs name rest : List Char} (h : bracketed? cs = some (name, rest)) :
    rest.length < cs.length := by
  unfold bracketed? at h
  split at h
  · rename_i c cs
    split at h
    · cases h
    · split at h
      · cases h
      · rename_i d rest' hdrop
        simp only [Option.some.injEq, Prod.mk.injEq] at h
        have := (List.dropWhile_suffix (l := cs) (· != '>')).length_le
        rw [hdrop] at this
        rw [← h.2]
        simp only [List.length_cons] at this ⊢
        omega
  · cases h

namespace Record

/-- The characters that stand for a bracketed name: the value of the column, or the name itself
with its brackets. -/
def valueOf (r : Record) (name : List Char) : List Char :=
  match r.get? (String.ofList name) with
  | some value => value.toList
  | none => '<' :: name ++ ['>']

/-- Replace the bracketed names that are columns, from left to right. -/
def fillChars (r : Record) : List Char → List Char
  | [] => []
  | c :: cs =>
    match _h : bracketed? (c :: cs) with
    | some (name, rest) => r.valueOf name ++ r.fillChars rest
    | none => c :: r.fillChars cs
termination_by cs => cs.length
decreasing_by
  · exact length_lt_of_bracketed? _h
  · simp

/-- `fillChars` on strings. -/
def fill (r : Record) (text : String) : String := String.ofList (r.fillChars text.toList)

end Record

/-! ## Placeholders in the text of a step -/

/-- Whether a value is a number: digits and nothing else. -/
def isNumber (cs : List Char) : Bool := !cs.isEmpty && cs.all Char.isDigit

/-- The value of a reference in the text, which has to be a column of the examples. A value that is
no number may not look like a placeholder. -/
def Record.resolve (r : Record) (columns : List String) (name : List Char) :
    Except ExpandError String :=
  match r.get? (String.ofList name) with
  | none => .error (.unknownPlaceholder (String.ofList name) columns)
  | some value =>
    if !isNumber value.toList && hasDelimiter value.toList then
      .error (.reservedDelimiter (String.ofList name) value)
    else .ok value

/-- Resolve the references among segments. The placeholders of data keep their data, with known
names filled in; data without a placeholder are kept at the end. -/
def Record.substitute (r : Record) (columns : List String) :
    List Segment → List String → Except ExpandError (List Char × List String)
  | [], data => .ok ([], data.map r.fill)
  | .char c :: rest, data => do
    let (text, data) ← r.substitute columns rest data
    return (c :: text, data)
  | .mark (.reference name) :: rest, data => do
    let value ← r.resolve columns name
    let (text, data) ← r.substitute columns rest data
    if isNumber value.toList then return (Placeholder.number.chars ++ text, value :: data)
    else return (value.toList ++ text, data)
  | .mark p :: rest, data => do
    let (text, after) ← r.substitute columns rest data.tail
    return (p.chars ++ text, (data.take 1).map r.fill ++ after)

end FeatureDoc
