import FeatureDoc.Json.Basic

/-!
# Printing JSON

Every item of an array and every member of an object stands on a line of its own, indented by two
spaces for each level. Empty arrays and objects stay on one line. In strings, quotes, backslashes
and the controls below the space are escaped, and all other characters stand for themselves.
-/

namespace FeatureDoc.Json

/-- One character of a string. -/
def escapeChar (c : Char) : List Char :=
  if c = '"' then ['\\', '"']
  else if c = '\\' then ['\\', '\\']
  else if c = '\x08' then ['\\', 'b']
  else if c = '\x0c' then ['\\', 'f']
  else if c = '\n' then ['\\', 'n']
  else if c = '\r' then ['\\', 'r']
  else if c = '\t' then ['\\', 't']
  else if c.toNat < 32 then
    ['\\', 'u', '0', '0', Nat.digitChar (c.toNat / 16), Nat.digitChar (c.toNat % 16)]
  else [c]

/-- A string between quotes. -/
def printString (s : String) : List Char := '"' :: s.toList.flatMap escapeChar ++ ['"']

/-- The start of a line at some depth. -/
def newline (depth : Nat) : List Char := '\n' :: List.replicate (2 * depth) ' '

mutual

/-- A value whose own line is at some depth. -/
def print (depth : Nat) : Json → List Char
  | .null => ['n', 'u', 'l', 'l']
  | .number n => Nat.toDigits 10 n
  | .string s => printString s
  | .array [] => ['[', ']']
  | .array (x :: xs) =>
    '[' :: newline (depth + 1) ++ print (depth + 1) x ++ printItems (depth + 1) xs
      ++ newline depth ++ [']']
  | .object [] => ['{', '}']
  | .object (m :: ms) =>
    '{' :: newline (depth + 1) ++ printMember (depth + 1) m ++ printMembers (depth + 1) ms
      ++ newline depth ++ ['}']

/-- The items of an array after the first. -/
def printItems (depth : Nat) : List Json → List Char
  | [] => []
  | x :: xs => ',' :: newline depth ++ print depth x ++ printItems depth xs

/-- A member of an object. -/
def printMember (depth : Nat) : String × Json → List Char
  | (name, value) => printString name ++ ':' :: ' ' :: print depth value

/-- The members of an object after the first. -/
def printMembers (depth : Nat) : List (String × Json) → List Char
  | [] => []
  | m :: ms => ',' :: newline depth ++ printMember depth m ++ printMembers depth ms

end

/-- The text of a value. -/
def pretty (j : Json) : String := String.ofList (print 0 j)

end FeatureDoc.Json
