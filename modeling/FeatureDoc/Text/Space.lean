import FeatureDoc.Text.Ranges

/-!
# White space

`isSpace` is the Unicode property White_Space. Trimming a text cuts the spaces off both of its
ends; a text is trimmed when there is nothing to cut.
-/

namespace FeatureDoc.Text

/-- The code points with the property White_Space. -/
def spaceRanges : List (Nat × Nat) :=
  [(0x9, 0xD), (0x20, 0x20), (0x85, 0x85), (0xA0, 0xA0), (0x1680, 0x1680), (0x2000, 0x200A),
   (0x2028, 0x2029), (0x202F, 0x202F), (0x205F, 0x205F), (0x3000, 0x3000)]

/-- The property White_Space. -/
def isSpace (c : Char) : Bool := inRanges spaceRanges c.toNat

/-- Cut the spaces off the front. -/
def trimStart (cs : List Char) : List Char := cs.dropWhile isSpace

/-- Cut the spaces off the back. -/
def trimEnd (cs : List Char) : List Char := (cs.reverse.dropWhile isSpace).reverse

/-- Cut the spaces off both ends. -/
def trim (cs : List Char) : List Char := trimEnd (trimStart cs)

/-- `trim` on strings. -/
def trimmed (s : String) : String := String.ofList (trim s.toList)

end FeatureDoc.Text
