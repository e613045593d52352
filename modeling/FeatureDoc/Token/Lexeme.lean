import FeatureDoc.Text.Word
import FeatureDoc.Token.Basic

/-!
# Lexemes

A lexeme is the text of one token at the front of the input: the characters that belong to it and
the literal that it stands for. Its first character decides which rule reads it.

* `Lexeme.read` reads the lexeme at the front of a text that starts with no indentation. It never
  fails: what no other rule takes is free text.
* `raw_isPrefix` says that a lexeme is a front part of the text it was read from, and
  `raw_ne_nil` that only the end of the text has an empty one.
-/

namespace FeatureDoc

/-- A space inside a line: it separates lexemes and belongs to none. -/
def isIndent (c : Char) : Bool := c == ' ' || c == '\t' || c == '\r'

/-- A character of free text after its first one. Digits end it, so that they stand alone. -/
def isBodyChar (c : Char) : Bool := Text.isLetter c || c == ' ' || c == '_' || c == '-'

/-- The text of one token. -/
structure Lexeme where
  /-- The kind of the token. -/
  kind : Kind
  /-- The literal of the token. -/
  literal : List Char
  /-- All characters of the lexeme, delimiters included. -/
  raw : List Char
  deriving DecidableEq, Repr

namespace Lexeme

/-! ## One rule for each first character

Each rule gets the text after the character that selects it. -/

/-- After a number sign: a comment, up to the end of the line. -/
def comment (cs : List Char) : Lexeme :=
  let body := cs.takeWhile (· != '\n')
  ⟨.comment, Text.trim body, '#' :: body⟩

/-- After an at sign: a tag, whose name may be empty. -/
def tag (cs : List Char) : Lexeme :=
  let name := cs.takeWhile Text.isTagChar
  ⟨.tag, name, '@' :: name⟩

/-- Whether an angle bracket that was opened is closed on the same line. -/
def closesOnLine (cs : List Char) : Bool := (cs.takeWhile (· != '\n')).contains '>'

/-- After an opening angle bracket that is closed: a reference to a column. -/
def exampleValue (cs : List Char) : Lexeme :=
  let name := cs.takeWhile (· != '>')
  ⟨.exampleValue, name, '<' :: name ++ (cs.drop name.length).take 1⟩

/-- The text before the first three quotes in a row, or all of it. -/
def beforeTripleQuote : List Char → List Char
  | '"' :: '"' :: '"' :: _ => []
  | c :: cs => c :: beforeTripleQuote cs
  | [] => []

/-- After a quote: a string up to the next quote, or a block between triple quotes. Both may run
over several lines, and both may lack their end. -/
def quoted : List Char → Lexeme
  | '"' :: '"' :: cs =>
    let body := beforeTripleQuote cs
    ⟨.docString, Text.trim body, '"' :: '"' :: '"' :: body ++ (cs.drop body.length).take 3⟩
  | '"' :: _ => ⟨.string, [], ['"', '"']⟩
  | cs =>
    let body := cs.takeWhile (· != '"')
    ⟨.string, body, '"' :: body ++ (cs.drop body.length).take 1⟩

/-- After a pipe: a table cell up to the next pipe, which is left to open the following cell. The
last pipe of a line opens none: it stands for the end of the line, or of the text. -/
def cell (cs : List Char) : Lexeme :=
  let pad := cs.takeWhile isIndent
  match cs.dropWhile isIndent with
  | [] => ⟨.eof, [], '|' :: pad⟩
  | '\n' :: _ => ⟨.newline, ['\n'], '|' :: pad ++ ['\n']⟩
  | rest =>
    let body := rest.takeWhile fun c => c != '|' && c != '\n'
    ⟨.tableData, Text.trim body, '|' :: pad ++ body⟩

/-- A run of digits. -/
def number (cs : List Char) : Lexeme :=
  let digits := cs.takeWhile Char.isDigit
  ⟨.number, digits, digits⟩

/-- From any other character on: a keyword, or free text. -/
def word (c : Char) (cs : List Char) : Lexeme :=
  let word := c :: cs.takeWhile Text.isLetter
  match Kind.ofKeyword? (String.ofList word) with
  | some kind => ⟨kind, word, word⟩
  | none =>
    let body := c :: cs.takeWhile isBodyChar
    ⟨.stepBody, Text.trim body, body⟩

/-- The lexeme at the front of a text. -/
def read : List Char → Lexeme
  | [] => ⟨.eof, [], []⟩
  | '#' :: cs => comment cs
  | ':' :: _ => ⟨.colon, [':'], [':']⟩
  | '\n' :: _ => ⟨.newline, ['\n'], ['\n']⟩
  | '@' :: cs => tag cs
  | '"' :: cs => quoted cs
  | '|' :: cs => cell cs
  | '<' :: cs => if closesOnLine cs then exampleValue cs else word '<' cs
  | c :: cs => if c.isDigit then number (c :: cs) else word c cs

/-! ## A lexeme is the front of the text -/

theorem take_isPrefix_drop (n : Nat) {body cs : List Char} (h : body <+: cs) :
    body ++ (cs.drop body.length).take n <+: cs := by
  obtain ⟨rest, rfl⟩ := h
  simpa using List.take_prefix n rest

theorem beforeTripleQuote_isPrefix (cs : List Char) : beforeTripleQuote cs <+: cs := by
  fun_induction beforeTripleQuote cs with
  | case1 => exact List.nil_prefix
  | case2 c cs _ ih => exact List.cons_prefix_cons.2 ⟨rfl, ih⟩
  | case3 => exact List.nil_prefix

theorem quoted_isPrefix (cs : List Char) : (quoted cs).raw <+: '"' :: cs := by
  unfold quoted
  split
  · simpa [List.cons_prefix_cons] using
      take_isPrefix_drop 3 (beforeTripleQuote_isPrefix _)
  · simp [List.cons_prefix_cons]
  · simpa [List.cons_prefix_cons] using take_isPrefix_drop 1 <| List.takeWhile_prefix _

theorem cell_isPrefix (cs : List Char) : (cell cs).raw <+: '|' :: cs := by
  have key : ∀ body, body <+: cs.dropWhile isIndent → cs.takeWhile isIndent ++ body <+: cs := by
    intro body h
    have := List.prefix_append_right_inj (cs.takeWhile isIndent) |>.2 h
    rwa [List.takeWhile_append_dropWhile] at this
  unfold cell
  split
  · simpa [List.cons_prefix_cons] using List.takeWhile_prefix isIndent
  · rename_i rest h
    simpa [List.cons_prefix_cons] using key ['\n'] (by simp [h])
  · simpa [List.cons_prefix_cons] using key _ <| List.takeWhile_prefix _

theorem word_isPrefix (c : Char) (cs : List Char) : (word c cs).raw <+: c :: cs := by
  dsimp only [word]
  split <;> simpa [List.cons_prefix_cons] using List.takeWhile_prefix _

/-- A lexeme is a front part of the text it was read from. -/
theorem raw_isPrefix (cs : List Char) : (read cs).raw <+: cs := by
  unfold read
  split
  · exact List.nil_prefix
  · simpa [comment, List.cons_prefix_cons] using List.takeWhile_prefix _
  · simp [List.cons_prefix_cons]
  · simp [List.cons_prefix_cons]
  · simpa [tag, List.cons_prefix_cons] using List.takeWhile_prefix _
  · exact quoted_isPrefix _
  · exact cell_isPrefix _
  · split
    · simpa [exampleValue, List.cons_prefix_cons] using
        take_isPrefix_drop 1 <| List.takeWhile_prefix _
    · exact word_isPrefix _ _
  · split
    · simpa [number] using List.takeWhile_prefix _
    · exact word_isPrefix _ _

theorem word_raw_ne_nil (c : Char) (cs : List Char) : (word c cs).raw ≠ [] := by
  dsimp only [word]
  split <;> simp

/-- Only the end of the text has an empty lexeme. -/
theorem raw_ne_nil {cs : List Char} (h : cs ≠ []) : (read cs).raw ≠ [] := by
  unfold read
  split
  · exact absurd rfl h
  · simp [comment]
  · simp
  · simp
  · simp [tag]
  · unfold quoted; split <;> simp
  · unfold cell; split <;> simp
  · split
    · simp [exampleValue]
    · exact word_raw_ne_nil _ _
  · split
    · next hd => simp [number, hd]
    · exact word_raw_ne_nil _ _

end Lexeme

end FeatureDoc
