import FeatureDoc.Filter.Error
import FeatureDoc.Table.Basic
import FeatureDoc.Text.Space

/-!
# Line ranges

A line range is written as one number, or as two numbers with a dash between them, the smaller one
first. Spaces around the numbers are ignored.
-/

namespace FeatureDoc

/-- The lines from `first` to `last`. -/
structure LineRange where
  /-- The first line. -/
  first : Nat
  /-- The last line. -/
  last : Nat
  deriving DecidableEq, Repr

namespace LineRange

/-- Numbers of lines are below this one, the number of 64-bit words. -/
def limit : Nat := 0x10000000000000000

/-- The number that a text spells: an optional plus sign and digits, with spaces around them. -/
def readBound? (cs : List Char) : Option Nat :=
  let text := Text.trim cs
  let digits := if text.head? = some '+' then text.tail else text
  let value := Nat.ofDigitChars 10 digits 0
  if !digits.isEmpty && digits.all Char.isDigit && value < limit then some value else none

/-- The range that a text spells. -/
def read? (cs : List Char) : Option LineRange :=
  match (Text.trim cs).splitOn '-' with
  | [bound] => (readBound? bound).map fun n => ⟨n, n⟩
  | [low, high] => do
    let first ← readBound? low
    let last ← readBound? high
    if first ≤ last then some ⟨first, last⟩ else none
  | _ => none

/-- Read a line range. -/
def parse (input : String) : Except FilterError LineRange :=
  match read? input.toList with
  | some range => .ok range
  | none => .error (.lineRange input)

/-- Whether a line is in the range. -/
def contains (r : LineRange) (line : Nat) : Bool := r.first ≤ line && line ≤ r.last

/-- Whether a row starts on a line of the range. -/
def containsRow (r : LineRange) (row : Row) : Bool := row.line?.any r.contains

end LineRange

end FeatureDoc
