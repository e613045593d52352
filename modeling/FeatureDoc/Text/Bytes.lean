/-!
# Texts in bytes

Places in a text are counted in bytes of its UTF-8 encoding. A text can be cut at a place only if it
is between two characters.
-/

namespace FeatureDoc.Text

/-- The length of a text in bytes. -/
def byteLength : List Char → Nat
  | [] => 0
  | c :: cs => c.utf8Size + byteLength cs

/-- The text without its first `n` bytes, if it can be cut there. -/
def dropBytes? : List Char → Nat → Option (List Char)
  | cs, 0 => some cs
  | [], _ + 1 => none
  | c :: cs, n + 1 => if c.utf8Size ≤ n + 1 then dropBytes? cs (n + 1 - c.utf8Size) else none

/-- The first `n` bytes of the text, if it can be cut there. -/
def takeBytes? : List Char → Nat → Option (List Char)
  | _, 0 => some []
  | [], _ + 1 => none
  | c :: cs, n + 1 =>
    if c.utf8Size ≤ n + 1 then (takeBytes? cs (n + 1 - c.utf8Size)).map (c :: ·) else none

/-- The text between two offsets, if they are in order and it can be cut at both. -/
def slice? (cs : List Char) (start stop : Nat) : Option (List Char) :=
  if start ≤ stop then (dropBytes? cs start).bind fun rest => takeBytes? rest (stop - start)
  else none

end FeatureDoc.Text
