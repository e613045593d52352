import FeatureDoc.Text.Hidden

/-!
# Quoted texts

A quoted text stands between double quotes and shows every character of the text: a quote or a
backslash gets a backslash, four controls have short names, and any other hidden character is
written as its code point in hexadecimal between braces. A list of texts stands between brackets.
-/

namespace FeatureDoc.Text

/-- One character of a quoted text. -/
def quoteChar (c : Char) : List Char :=
  if c = '"' then ['\\', '"']
  else if c = '\\' then ['\\', '\\']
  else if c = '\x00' then ['\\', '0']
  else if c = '\t' then ['\\', 't']
  else if c = '\r' then ['\\', 'r']
  else if c = '\n' then ['\\', 'n']
  else if isHidden c then '\\' :: 'u' :: '\x7b' :: Nat.toDigits 16 c.toNat ++ ['\x7d']
  else [c]

/-- A text between quotes. -/
def quote (s : String) : String :=
  String.ofList ('"' :: s.toList.flatMap quoteChar ++ ['"'])

/-- A list of texts between brackets, each one quoted. -/
def quoteList (texts : List String) : String :=
  "[" ++ String.intercalate ", " (texts.map quote) ++ "]"

end FeatureDoc.Text
