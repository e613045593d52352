import FeatureDoc.Proofs.Text.Bytes
import FeatureDoc.Proofs.Token.Calls

/-!
# Scanning by offsets

A cursor holds what is left of a text. The same scan can be made over the whole text with an offset
in bytes: what is left, and what a lexeme holds, are then slices of the text, and a slice exists
only between two characters.

* A `Place` is an offset and a line. Its scanning functions give `none` as soon as a slice does not
  exist.
* `Place.Divides` says that a place is between two parts of the text and counts the lines of the
  first one. Each scanning function has one law: from such a place, it finds its slices and leads to
  another such place. `Place.Divides.next?` is the law for a token.
* An `OffsetScan` hands tokens out as a `Scan` does. `OffsetScan.answers?_of_shows` says that it
  gives the same answers and that no slice is missing.
* `OffsetScan.places` is the main statement: wherever the calls have led, the offset is between two
  characters of the text and the line is one more than the line ends before it.
-/

namespace FeatureDoc

/-- The token of a lexeme. -/
def Lexeme.token (x : Lexeme) (line : Nat) : Token := ⟨x.kind, String.ofList x.literal, line⟩

/-- A place in a text, by its offset in bytes. -/
structure Place where
  /-- How many bytes come before it. -/
  offset : Nat
  /-- The line on which it is. -/
  line : Nat
  deriving DecidableEq, Repr

namespace Place

section Scanning

variable (text : List Char)

/-! ## Moving over a text -/

/-- What is left of the text. -/
def rest? (p : Place) : Option (List Char) := Text.dropBytes? text p.offset

/-- The next character, if there is one. -/
def peek? (p : Place) : Option (Option Char) := (p.rest? text).map List.head?

/-- Move on by some bytes, but not behind the end of the text, and count the line ends there. -/
def advance? (p : Place) (bytes : Nat) : Option (List Char × Place) := do
  let stop := min (p.offset + bytes) (Text.byteLength text)
  let taken ← Text.slice? text p.offset stop
  return (taken, ⟨stop, p.line + taken.count '\n'⟩)

/-- Move over one character. -/
def bump? (p : Place) : Option Place := do
  match ← p.peek? text with
  | none => return p
  | some c => return (← p.advance? text c.utf8Size).2

/-- Move over one character, if it is the expected one. -/
def bumpIf? (p : Place) (expected : Char) : Option Place := do
  if (← p.peek? text) = some expected then p.bump? text else return p

/-- Move over the characters that pass a test. -/
def takeWhile? (p : Place) (test : Char → Bool) : Option (List Char × Place) := do
  p.advance? text (Text.byteLength ((← p.rest? text).takeWhile test))

/-- Move over the indentation. -/
def skipIndent? (p : Place) : Option Place := do
  return (← p.takeWhile? text isIndent).2

/-! ## One rule for each first character -/

/-- From a quote on. -/
def quoted? (p : Place) : Option (Token × Place) := do
  let first ← p.bump? text
  if (← first.peek? text) = some '"' then
    let second ← first.bump? text
    if (← second.peek? text) = some '"' then
      let third ← second.bump? text
      let length := Text.byteLength (Lexeme.beforeTripleQuote (← third.rest? text))
      let (body, stop) ← third.advance? text length
      let stop ← stop.bumpIf? text '"'
      let stop ← stop.bumpIf? text '"'
      let stop ← stop.bumpIf? text '"'
      return (⟨.docString, String.ofList (Text.trim body), p.line⟩, stop)
    else return (⟨.string, "", p.line⟩, second)
  else
    let (body, stop) ← first.takeWhile? text (· != '"')
    let stop ← stop.bumpIf? text '"'
    return (⟨.string, String.ofList body, p.line⟩, stop)

/-- From a pipe on. -/
def cell? (p : Place) : Option (Token × Place) := do
  let start ← (← p.bump? text).skipIndent? text
  match ← start.peek? text with
  | none => return (⟨.eof, "", p.line⟩, start)
  | some '\n' => return (⟨.newline, "\n", p.line⟩, ← start.bump? text)
  | some '|' => return (⟨.tableData, "", p.line⟩, start)
  | some _ =>
    let (body, stop) ← start.takeWhile? text fun c => c != '|' && c != '\n'
    return (⟨.tableData, String.ofList (Text.trim body), p.line⟩, stop)

/-- A keyword, or free text. -/
def word? (p : Place) : Option (Token × Place) := do
  let (_, stop) ← (← p.bump? text).takeWhile? text Text.isLetter
  let word ← Text.slice? text p.offset stop.offset
  match Kind.ofKeyword? (String.ofList word) with
  | some kind => return (⟨kind, String.ofList word, p.line⟩, stop)
  | none =>
    let (_, stop) ← stop.takeWhile? text isBodyChar
    let body ← Text.slice? text p.offset stop.offset
    return (⟨.stepBody, String.ofList (Text.trim body), p.line⟩, stop)

/-- From an opening angle bracket on. -/
def bracket? (p : Place) : Option (Token × Place) := do
  if Lexeme.closesOnLine ((← p.rest? text).drop 1) then
    let (name, stop) ← (← p.bump? text).takeWhile? text (· != '>')
    let stop ← stop.bumpIf? text '>'
    return (⟨.exampleValue, String.ofList name, p.line⟩, stop)
  else p.word? text

/-- A token from a place on that has no indentation. -/
def token? (p : Place) : Option (Token × Place) := do
  match ← p.peek? text with
  | none => return (⟨.eof, "", p.line⟩, p)
  | some '#' =>
    let (body, stop) ← (← p.bump? text).takeWhile? text (· != '\n')
    return (⟨.comment, String.ofList (Text.trim body), p.line⟩, stop)
  | some ':' => return (⟨.colon, ":", p.line⟩, ← p.bump? text)
  | some '\n' => return (⟨.newline, "\n", p.line⟩, ← p.bump? text)
  | some '@' =>
    let (name, stop) ← (← p.bump? text).takeWhile? text Text.isTagChar
    return (⟨.tag, String.ofList name, p.line⟩, stop)
  | some '<' => p.bracket? text
  | some '"' => p.quoted? text
  | some '|' => p.cell? text
  | some c =>
    if c.isDigit then
      let (digits, stop) ← p.takeWhile? text Char.isDigit
      return (⟨.number, String.ofList digits, p.line⟩, stop)
    else p.word? text

/-- Read a token and move past it. -/
def next? (p : Place) : Option (Token × Place) := do
  (← p.skipIndent? text).token? text

end Scanning

/-! ## Places that divide a text -/

/-- A place is between two parts of a text, and its line is counted from the first one. -/
structure Divides (text : List Char) (p : Place) (before rest : List Char) : Prop where
  /-- The two parts are the text. -/
  text_eq : text = before ++ rest
  /-- The offset is the length of the first part. -/
  offset_eq : p.offset = Text.byteLength before
  /-- The line is one more than the line ends in the first part. -/
  line_eq : p.line = 1 + before.count '\n'

namespace Divides

variable {text before body rest cs : List Char} {p q : Place} {c : Char}

theorem rest? (h : Divides text p before rest) : p.rest? text = some rest := by
  rw [Place.rest?, h.offset_eq, h.text_eq]
  exact Text.dropBytes?_append before rest

theorem peek? (h : Divides text p before rest) : p.peek? text = some rest.head? := by
  rw [Place.peek?, h.rest?, Option.map_some]

/-- What is between two places is a slice. -/
theorem slice? (h : Divides text p before (body ++ rest))
    (hq : Divides text q (before ++ body) rest) :
    Text.slice? text p.offset q.offset = some body := by
  rw [h.text_eq, h.offset_eq, hq.offset_eq]
  exact Text.slice?_append before body rest

/-- Moving over a part of the text leads to the place behind it. -/
theorem advance? (h : Divides text p before (body ++ rest)) :
    ∃ q, p.advance? text (Text.byteLength body) = some (body, q) ∧
      Divides text q (before ++ body) rest := by
  have hq : Divides text ⟨Text.byteLength (before ++ body), p.line + body.count '\n'⟩
      (before ++ body) rest := by
    refine ⟨by rw [h.text_eq, List.append_assoc], rfl, ?_⟩
    rw [h.line_eq, List.count_append, Nat.add_assoc]
  have hstop : min (p.offset + Text.byteLength body) (Text.byteLength text) =
      Text.byteLength (before ++ body) := by
    simp only [h.offset_eq, h.text_eq, Text.byteLength_append]
    omega
  refine ⟨_, ?_, hq⟩
  rw [Place.advance?, hstop, h.slice? hq]
  rfl

theorem bump? (h : Divides text p before (c :: rest)) :
    ∃ q, p.bump? text = some q ∧ Divides text q (before ++ [c]) rest := by
  have hsplit : Divides text p before ([c] ++ rest) := h
  obtain ⟨q, hadvance, hq⟩ := hsplit.advance?
  rw [show Text.byteLength [c] = c.utf8Size from Nat.add_zero _] at hadvance
  refine ⟨q, ?_, hq⟩
  rw [Place.bump?, h.peek?]
  simp [hadvance]

/-- A character that is expected is moved over. -/
theorem bumpIf? (h : Divides text p before (c :: rest)) :
    ∃ q, p.bumpIf? text c = some q ∧ Divides text q (before ++ [c]) rest := by
  obtain ⟨q, hbump, hq⟩ := h.bump?
  exact ⟨q, by simp [Place.bumpIf?, h.peek?, hbump], hq⟩

/-- At the end of the text there is nothing to move over. -/
theorem bumpIf?_of_nil (h : Divides text p before []) (c : Char) : p.bumpIf? text c = some p := by
  simp [Place.bumpIf?, h.peek?]

theorem takeWhile? {test : Char → Bool} (h : Divides text p before (body ++ rest))
    (htake : (body ++ rest).takeWhile test = body) :
    ∃ q, p.takeWhile? text test = some (body, q) ∧ Divides text q (before ++ body) rest := by
  rw [Place.takeWhile?, h.rest?, Option.bind_eq_bind, Option.bind_some, htake]
  exact h.advance?

theorem takeWhile?_of_append {test : Char → Bool} (h : Divides text p before cs)
    (hrest : cs.takeWhile test ++ rest = cs) :
    ∃ q, p.takeWhile? text test = some (cs.takeWhile test, q) ∧
      Divides text q (before ++ cs.takeWhile test) rest :=
  takeWhile? (by rwa [hrest]) (by rw [hrest])

theorem skipIndent? (h : Divides text p before rest) :
    ∃ q, p.skipIndent? text = some q ∧
      Divides text q (before ++ rest.takeWhile isIndent) (rest.dropWhile isIndent) := by
  obtain ⟨q, htake, hq⟩ := h.takeWhile?_of_append List.takeWhile_append_dropWhile
  exact ⟨q, by rw [Place.skipIndent?, htake]; rfl, hq⟩

/-! ## The rules

Each rule reads the lexeme that the rule for lists of characters reads. -/

/-- From `p` on, a rule reads the lexeme `x` and goes to the place behind it. -/
def Reads (text : List Char) (p : Place) (before : List Char) (x : Lexeme) (rest : List Char)
    (outcome : Option (Token × Place)) : Prop :=
  ∃ q, outcome = some (x.token p.line, q) ∧ Divides text q (before ++ x.raw) rest

theorem quoted? (h : Divides text p before ('"' :: cs)) {x : Lexeme}
    (hform : Lexeme.QuotedAs cs x rest) : Reads text p before x rest (p.quoted? text) := by
  obtain ⟨p₁, hbump₁, h₁⟩ := h.bump?
  cases hform with
  | empty hthird =>
    obtain ⟨p₂, hbump₂, h₂⟩ := h₁.bump?
    refine ⟨p₂, ?_, by simpa using h₂⟩
    simp [Place.quoted?, hbump₁, h₁.peek?, hbump₂, h₂.peek?, hthird, Lexeme.token]
  | @string body _ hne hbody =>
    have hpeek : p₁.peek? text = some body.head? := by
      rw [h₁.peek?, List.head?_append_of_ne_nil _ hne]
    have hhead : body.head? ≠ some '"' := fun hhead => hbody (List.mem_of_head? hhead)
    obtain ⟨p₂, htake, h₂⟩ := h₁.takeWhile? (Lexeme.takeWhile_ne_quote hbody rest).1
    obtain ⟨p₃, hbump₃, h₃⟩ := h₂.bumpIf?
    refine ⟨p₃, ?_, by simpa using h₃⟩
    simp [Place.quoted?, hbump₁, hpeek, hhead, htake, hbump₃, Lexeme.token]
  | openString hbody =>
    have hhead : cs.head? ≠ some '"' := fun hhead => hbody (List.mem_of_head? hhead)
    have htake := (Lexeme.takeWhile_ne_quote hbody []).2
    rw [← List.append_nil cs] at h₁
    obtain ⟨p₂, htake, h₂⟩ := h₁.takeWhile? (by rwa [List.append_nil])
    refine ⟨p₂, ?_, by simpa using h₂⟩
    simp [Place.quoted?, hbump₁, h₁.peek?, hhead, htake, h₂.bumpIf?_of_nil, Lexeme.token]
  | @block body _ hbody =>
    obtain ⟨p₂, hbump₂, h₂⟩ := h₁.bump?
    obtain ⟨p₃, hbump₃, h₃⟩ := h₂.bump?
    obtain ⟨p₄, hadvance, h₄⟩ := h₃.advance?
    obtain ⟨p₅, hbump₅, h₅⟩ := h₄.bumpIf?
    obtain ⟨p₆, hbump₆, h₆⟩ := h₅.bumpIf?
    obtain ⟨p₇, hbump₇, h₇⟩ := h₆.bumpIf?
    refine ⟨p₇, ?_, by simpa using h₇⟩
    simp [Place.quoted?, hbump₁, h₁.peek?, hbump₂, h₂.peek?, hbump₃, h₃.rest?, hbody, hadvance,
      hbump₅, hbump₆, hbump₇, Lexeme.token]
  | @openBlock body hbody =>
    obtain ⟨p₂, hbump₂, h₂⟩ := h₁.bump?
    obtain ⟨p₃, hbump₃, h₃⟩ := h₂.bump?
    rw [← List.append_nil body] at h₃
    obtain ⟨p₄, hadvance, h₄⟩ := h₃.advance?
    refine ⟨p₄, ?_, by simpa using h₄⟩
    simp [Place.quoted?, hbump₁, h₁.peek?, hbump₂, h₂.peek?, hbump₃, h₃.rest?, hbody, hadvance,
      h₄.bumpIf?_of_nil, Lexeme.token]

theorem cell? (h : Divides text p before ('|' :: cs)) {x : Lexeme}
    (hform : Lexeme.CellAs cs x rest) : Reads text p before x rest (p.cell? text) := by
  obtain ⟨p₁, hbump₁, h₁⟩ := h.bump?
  obtain ⟨p₂, hskip, h₂⟩ := h₁.skipIndent?
  cases hform with
  | ending hpad =>
    obtain ⟨htake, hdrop⟩ := takeWhile_append_stop (m := []) hpad nofun
    rw [List.append_nil] at htake hdrop
    rw [htake, hdrop] at h₂
    refine ⟨p₂, ?_, by simpa using h₂⟩
    simp [Place.cell?, hbump₁, hskip, h₂.peek?, Lexeme.token]
  | @newline pad _ hpad =>
    have hline : ∀ c ∈ ('\n' :: rest).head?, isIndent c = false := by simp [isIndent]
    obtain ⟨htake, hdrop⟩ := takeWhile_append_stop hpad hline
    rw [htake, hdrop] at h₂
    obtain ⟨p₃, hbump₃, h₃⟩ := h₂.bump?
    refine ⟨p₃, ?_, by simpa using h₃⟩
    simp [Place.cell?, hbump₁, hskip, h₂.peek?, hbump₃, Lexeme.token]
  | @cell pad body _ hpad hhead hbody hstop hempty =>
    have hstart := Lexeme.isIndent_head?_cell hhead hempty
    obtain ⟨htake, hdrop⟩ := takeWhile_append_stop hpad hstart
    rw [htake, hdrop] at h₂
    rcases body with _ | ⟨c, body⟩
    · -- the adjacent pipe is left for the next token
      refine ⟨p₂, ?_, by simpa using h₂⟩
      have htrim : Text.trim [] = [] := rfl
      simp [Place.cell?, hbump₁, hskip, h₂.peek?, hempty rfl, Lexeme.token, htrim]
    · have htaken : (c :: body ++ rest).takeWhile (fun c => c != '|' && c != '\n') = c :: body := by
        rw [takeWhile_append_of_head? fun x hx => by rcases hstop x hx with rfl | rfl <;> rfl]
        exact List.takeWhile_eq_self_iff.2 fun x hx => by simp [hbody x hx]
      obtain ⟨p₃, htake₃, h₃⟩ := h₂.takeWhile? htaken
      obtain ⟨hpipe, hnewline⟩ := hbody c List.mem_cons_self
      refine ⟨p₃, ?_, by simpa using h₃⟩
      simp [Place.cell?, hbump₁, hskip, h₂.peek?, htake₃, Lexeme.token]

theorem word? (h : Divides text p before (c :: cs))
    (hrest : (Lexeme.word c cs).raw ++ rest = c :: cs) :
    Reads text p before (Lexeme.word c cs) rest (p.word? text) := by
  have hletters := List.takeWhile_append_dropWhile (p := Text.isLetter) (l := cs)
  obtain ⟨p₁, hbump₁, h₁⟩ := h.bump?
  obtain ⟨p₂, htake₂, h₂⟩ := h₁.takeWhile?_of_append hletters
  have hsplit : Divides text p before
      ((c :: cs.takeWhile Text.isLetter) ++ cs.dropWhile Text.isLetter) := by
    simpa [hletters] using h
  have hword : Text.slice? text p.offset p₂.offset = some (c :: cs.takeWhile Text.isLetter) :=
    hsplit.slice? (by simpa using h₂)
  rw [Place.word?, hbump₁, Option.bind_eq_bind, Option.bind_some, htake₂]
  dsimp only [Option.bind_eq_bind, Option.bind_some]
  rw [hword]
  dsimp only [Option.bind_some]
  rcases hk : Kind.ofKeyword? (String.ofList (c :: cs.takeWhile Text.isLetter)) with _ | k
  · have hx : Lexeme.word c cs = ⟨.stepBody, Text.trim (c :: cs.takeWhile isBodyChar),
        c :: cs.takeWhile isBodyChar⟩ := by
      dsimp only [Lexeme.word]
      rw [hk]
    -- letters are body characters, so the text goes on where the letters end
    have hbody : cs.takeWhile isBodyChar = cs.takeWhile Text.isLetter ++
        (cs.dropWhile Text.isLetter).takeWhile isBodyChar := by
      conv_lhs => rw [← hletters]
      exact List.takeWhile_append_of_pos fun x hx => by simp [isBodyChar, List.mem_takeWhile_imp hx]
    have hmore := List.takeWhile_append_dropWhile (p := isBodyChar)
      (l := cs.dropWhile Text.isLetter)
    obtain ⟨p₃, htake₃, h₃⟩ := h₂.takeWhile?_of_append hmore
    rw [hx] at hrest ⊢
    obtain rfl : (cs.dropWhile Text.isLetter).dropWhile isBodyChar = rest := by
      have hcs : cs.takeWhile isBodyChar ++ rest = cs := (List.cons.inj hrest).2
      rw [hbody, List.append_assoc] at hcs
      have hcut := List.append_cancel_left (hcs.trans hletters.symm)
      exact List.append_cancel_left (hmore.trans hcut.symm)
    have hstop : Divides text p₃ (before ++ c :: cs.takeWhile isBodyChar)
        ((cs.dropWhile Text.isLetter).dropWhile isBodyChar) := by
      simpa [hbody] using h₃
    have hslice : Text.slice? text p.offset p₃.offset = some (c :: cs.takeWhile isBodyChar) :=
      slice? (hrest.symm ▸ h) hstop
    refine ⟨p₃, ?_, hstop⟩
    dsimp only
    rw [htake₃, Option.bind_some, hslice]
    rfl
  · have hx : Lexeme.word c cs = ⟨k, c :: cs.takeWhile Text.isLetter,
        c :: cs.takeWhile Text.isLetter⟩ := by
      dsimp only [Lexeme.word]
      rw [hk]
    rw [hx] at hrest ⊢
    obtain rfl : cs.dropWhile Text.isLetter = rest :=
      List.append_cancel_left (hletters.trans (List.cons.inj hrest).2.symm)
    exact ⟨p₂, rfl, by simpa using h₂⟩

theorem bracket? (h : Divides text p before ('<' :: cs)) {x : Lexeme}
    (hx : Lexeme.read ('<' :: cs) = x) (hrest : x.raw ++ rest = '<' :: cs) :
    Reads text p before x rest (p.bracket? text) := by
  rw [Place.bracket?, h.rest?, Option.bind_eq_bind, Option.bind_some, List.drop_one, List.tail_cons]
  by_cases hclosed : Lexeme.closesOnLine cs = true
  · have hread : Lexeme.read ('<' :: cs) = Lexeme.exampleValue cs := if_pos hclosed
    obtain ⟨name, after, rfl, hname, -⟩ := Lexeme.closesOnLine_cases hclosed
    rw [hread, Lexeme.exampleValue_append_bracket hname] at hx
    subst hx
    obtain rfl : after = rest := by simpa using hrest.symm
    obtain ⟨p₁, hbump₁, h₁⟩ := h.bump?
    obtain ⟨p₂, htake₂, h₂⟩ := h₁.takeWhile? (takeWhile_ne_append hname after).1
    obtain ⟨p₃, hbump₃, h₃⟩ := h₂.bumpIf?
    refine ⟨p₃, ?_, by simpa using h₃⟩
    simp [hclosed, hbump₁, htake₂, hbump₃, Lexeme.token]
  · have hread : Lexeme.read ('<' :: cs) = Lexeme.word '<' cs := if_neg hclosed
    rw [if_neg hclosed]
    rw [hread] at hx
    subst hx
    exact h.word? hrest

/-- **A token that is read by offsets is the one of the lexeme** at the front of what is left. -/
theorem token? (h : Divides text p before cs) (hrest : (Lexeme.read cs).raw ++ rest = cs) :
    Reads text p before (Lexeme.read cs) rest (p.token? text) := by
  rcases cs with _ | ⟨c, cs⟩
  · obtain rfl : rest = [] := hrest
    refine ⟨p, ?_, by simpa [Lexeme.read] using h⟩
    simp [Place.token?, h.peek?, Lexeme.token, Lexeme.read]
  rw [Place.token?, h.peek?, Option.bind_eq_bind, Option.bind_some, List.head?_cons]
  split
  · next hnone => cases hnone
  · next hc =>
    cases hc
    obtain ⟨p₁, hbump₁, h₁⟩ := h.bump?
    obtain ⟨p₂, htake₂, h₂⟩ := h₁.takeWhile?_of_append (List.cons.inj hrest).2
    refine ⟨p₂, ?_, by simpa [Lexeme.read, Lexeme.comment] using h₂⟩
    simp [hbump₁, htake₂, Lexeme.token, Lexeme.read, Lexeme.comment]
  · next hc =>
    cases hc
    obtain rfl : rest = cs := (List.cons.inj hrest).2
    obtain ⟨p₁, hbump₁, h₁⟩ := h.bump?
    exact ⟨p₁, by simp [hbump₁, Lexeme.token, Lexeme.read], h₁⟩
  · next hc =>
    cases hc
    obtain rfl : rest = cs := (List.cons.inj hrest).2
    obtain ⟨p₁, hbump₁, h₁⟩ := h.bump?
    exact ⟨p₁, by simp [hbump₁, Lexeme.token, Lexeme.read], h₁⟩
  · next hc =>
    cases hc
    obtain ⟨p₁, hbump₁, h₁⟩ := h.bump?
    obtain ⟨p₂, htake₂, h₂⟩ := h₁.takeWhile?_of_append (List.cons.inj hrest).2
    refine ⟨p₂, ?_, by simpa [Lexeme.read, Lexeme.tag] using h₂⟩
    simp [hbump₁, htake₂, Lexeme.token, Lexeme.read, Lexeme.tag]
  · next hc =>
    cases hc
    exact h.bracket? rfl hrest
  · next hc =>
    cases hc
    obtain ⟨after, hform⟩ := Lexeme.exists_quotedAs cs
    obtain rfl : after = rest := List.append_cancel_left (hform.raw_append.trans hrest.symm)
    exact h.quoted? hform
  · next hc =>
    cases hc
    obtain ⟨after, hform⟩ := Lexeme.exists_cellAs cs
    obtain rfl : after = rest := List.append_cancel_left (hform.raw_append.trans hrest.symm)
    exact h.cell? hform
  · next c' hhash hcolon hnewline hat hbracket hquote hpipe hc =>
    cases hc
    have hread : Lexeme.read (c :: cs) =
        if c.isDigit then Lexeme.number (c :: cs) else Lexeme.word c cs := by
      rw [Lexeme.read_cons, if_neg hhash, if_neg hcolon, if_neg hnewline, if_neg hat,
        if_neg hquote, if_neg hpipe, if_neg hbracket]
    by_cases hdigit : c.isDigit = true
    · rw [hread, if_pos hdigit] at hrest ⊢
      obtain ⟨p₁, htake₁, h₁⟩ := h.takeWhile?_of_append hrest
      exact ⟨p₁, by simp [hdigit, htake₁, Lexeme.token, Lexeme.number], h₁⟩
    · rw [hread, if_neg hdigit] at hrest ⊢
      rw [if_neg hdigit]
      exact h.word? hrest

/-- **One step of a scan by offsets** is the step of the cursor that holds what is left. -/
theorem next? {cursor : Cursor} (h : Divides text p before cursor.rest)
    (hline : cursor.line = p.line) :
    ∃ q, p.next? text = some (cursor.next.1, q) ∧
      Divides text q (before ++ cursor.consumed) cursor.next.2.rest ∧
      cursor.next.2.line = q.line := by
  obtain ⟨p₁, hskip, h₁⟩ := h.skipIndent?
  obtain ⟨q, htoken, hq⟩ := h₁.token? cursor.raw_append
  have hindent : (cursor.rest.takeWhile isIndent).count '\n' = 0 :=
    Lexeme.count_newline_takeWhile rfl _
  have hline₁ : p₁.line = p.line := by
    rw [h₁.line_eq, h.line_eq, List.count_append, hindent, Nat.add_zero]
  refine ⟨q, ?_, by rw [Cursor.consumed, ← List.append_assoc]; exact hq, ?_⟩
  · rw [Place.next?, hskip, Option.bind_eq_bind, Option.bind_some, htoken, hline₁, ← hline]
    rfl
  · rw [hq.line_eq, List.count_append, ← Nat.add_assoc, ← h₁.line_eq, hline₁, ← hline]
    rfl

end Divides

end Place

/-! ## Calls -/

/-- A place whose tokens are handed out one by one, the end token once. -/
structure OffsetScan where
  /-- Where the next token is read. -/
  place : Place
  /-- Whether the end token has been handed out. -/
  ended : Bool
  deriving DecidableEq, Repr

namespace OffsetScan

/-- The start of a text. -/
def start : OffsetScan := ⟨⟨0, 1⟩, false⟩

section Scanning

variable (text : List Char)

/-- The answer to a call. -/
def answer? (s : OffsetScan) : Scan.Call → Option (Option Token × OffsetScan)
  | .read => do
    let (token, place) ← s.place.next? text
    return (some token, { s with place })
  | .next => do
    if s.ended then return (none, s)
    let (token, place) ← s.place.next? text
    return (some token, ⟨place, token.kind == .eof⟩)

/-- The answers to calls, one after the other. -/
def answers? (s : OffsetScan) : List Scan.Call → Option (List (Option Token) × OffsetScan)
  | [] => some ([], s)
  | call :: calls => do
    let (answer, s) ← s.answer? text call
    let (answers, s) ← s.answers? calls
    return (answer :: answers, s)

end Scanning

/-- A scan by offsets is where the scan `t` is, behind `before`. -/
structure Shows (text : List Char) (s : OffsetScan) (before : List Char) (t : Scan) : Prop where
  /-- The cursor of `t` holds what is left. -/
  divides : s.place.Divides text before t.cursor.rest
  /-- Both are on the same line. -/
  line_eq : t.cursor.line = s.place.line
  /-- Both have ended or not. -/
  ended_eq : s.ended = t.ended

variable {text before : List Char} {s : OffsetScan} {t : Scan}

theorem answer?_of_shows (h : Shows text s before t) (call : Scan.Call) :
    ∃ s' before', s.answer? text call = some ((t.answer call).1, s') ∧
      Shows text s' before' (t.answer call).2 := by
  obtain ⟨q, hnext, hq, hline⟩ := h.divides.next? h.line_eq
  cases call with
  | read =>
    refine ⟨{ s with place := q }, _, ?_, hq, hline, h.ended_eq⟩
    simp [answer?, hnext, Scan.answer, Scan.read]
  | next =>
    cases hended : t.ended with
    | true =>
      refine ⟨s, before, ?_, ?_⟩
      · simp [answer?, h.ended_eq, hended, Scan.answer, Scan.next?]
      · simpa [Scan.answer, Scan.next?, hended] using h
    | false =>
      refine ⟨⟨q, t.cursor.next.1.kind == .eof⟩, before ++ t.cursor.consumed, ?_, ?_⟩
      · simp [answer?, h.ended_eq, hended, hnext, Scan.answer, Scan.next?]
      · simp only [Scan.answer, Scan.next?, hended]
        exact ⟨hq, hline, rfl⟩

/-- **No slice is missing, and the answers are those of the scan**, however the calls are mixed. -/
theorem answers?_of_shows (h : Shows text s before t) (calls : List Scan.Call) :
    ∃ s' before', s.answers? text calls = some ((t.answers calls).1, s') ∧
      Shows text s' before' (t.answers calls).2 := by
  induction calls generalizing s before t with
  | nil => exact ⟨s, before, rfl, h⟩
  | cons call calls ih =>
    obtain ⟨s₁, before₁, hanswer, h₁⟩ := answer?_of_shows h call
    obtain ⟨s₂, before₂, hanswers, h₂⟩ := ih h₁
    exact ⟨s₂, before₂, by simp [answers?, hanswer, hanswers], h₂⟩

/-- The lines of the answers never go back. -/
theorem pairwise_line_answers (source : String) (calls : List Scan.Call) :
    (((Scan.ofString source).answers calls).1.reduceOption.map Token.line).Pairwise (· ≤ ·) := by
  obtain ⟨ts, e, htokens, -, -⟩ := (Cursor.ofString source).tokens_eq_append
  have hlast : (Cursor.ofString source).tokens.getLast? = some e := by
    rw [htokens, List.getLast?_concat]
  have hprefix := Scan.reduceOption_answers (s := Scan.ofString source) calls hlast
  have hend : (List.replicate calls.length e).IsChain fun a b => a.line ≤ b.line :=
    List.Pairwise.isChain (List.pairwise_replicate.2 (Or.inr le_rfl))
  have hall : (tokens source ++ List.replicate calls.length e).IsChain
      fun a b => a.line ≤ b.line := by
    refine List.isChain_append.2 ⟨(stream_tokens source).isChain.imp fun _ _ h => h.line_le, hend,
      fun a ha b hb => ?_⟩
    rw [tokens, hlast] at ha
    obtain rfl : e = a := Option.some.inj ha
    obtain rfl : b = e := List.eq_of_mem_replicate (List.mem_of_mem_head? hb)
    exact le_rfl
  have hchain := hall.prefix hprefix
  exact ((List.isChain_map Token.line).2 hchain).pairwise

/-- **Where a scan is.** Wherever the calls have led, every slice existed, the offset is between two
characters of the text, and the line is one more than the line ends before it. The next token stands
on the line of its first character, which is the one behind the indentation, and lines never go
back. -/
theorem places (source : String) (calls : List Scan.Call) :
    ∃ answers s before after,
      start.answers? source.toList calls = some (answers, s) ∧
      answers = ((Scan.ofString source).answers calls).1 ∧
      (Scan.called source calls).cursor = ⟨after, s.place.line⟩ ∧
      source.toList = before ++ after ∧ s.place.offset = Text.byteLength before ∧
      (⟨s.place.offset⟩ : String.Pos.Raw).IsValid source ∧
      s.place.offset ≤ source.utf8ByteSize ∧
      s.place.line = 1 + before.count '\n' ∧
      (∀ call token s', s.answer? source.toList call = some (some token, s') →
        token.line = 1 + (before ++ after.takeWhile isIndent).count '\n') ∧
      (answers.reduceOption.map Token.line).Pairwise (· ≤ ·) := by
  have hstart : Shows source.toList start [] (Scan.ofString source) := ⟨⟨rfl, rfl, rfl⟩, rfl, rfl⟩
  obtain ⟨s, before, hanswers, hs⟩ := answers?_of_shows hstart calls
  have htext : source.toList = before ++ (Scan.called source calls).cursor.rest :=
    hs.divides.text_eq
  have hsource : source = String.ofList before ++
      String.ofList (Scan.called source calls).cursor.rest := by
    rw [← String.toList_inj, String.toList_append, htext, String.toList_ofList,
      String.toList_ofList]
  have hoffset : s.place.offset = (String.ofList before).utf8ByteSize := by
    rw [hs.divides.offset_eq, Text.utf8ByteSize_ofList]
  refine ⟨_, s, before, (Scan.called source calls).cursor.rest, hanswers, rfl, ?_, htext,
    hs.divides.offset_eq, ?_, ?_, hs.divides.line_eq, fun call token s' hanswer => ?_,
    pairwise_line_answers source calls⟩
  · rw [← hs.line_eq]
    rfl
  · exact String.Pos.Raw.isValid_iff_exists_append.2 ⟨_, _, hsource, by rw [hoffset]; rfl⟩
  · conv_rhs => rw [hsource]
    rw [String.utf8ByteSize_append, hoffset]
    exact Nat.le_add_right _ _
  · rw [List.count_append, Lexeme.count_newline_takeWhile rfl, Nat.add_zero, ← hs.divides.line_eq,
      ← hs.line_eq]
    obtain ⟨s₁, _, hanswer₁, -⟩ := answer?_of_shows hs call
    have htoken : ((Scan.called source calls).answer call).1 = some token :=
      congrArg Prod.fst (Option.some.inj (hanswer₁.symm.trans hanswer))
    rcases (Scan.called source calls).answer_cases call with ⟨-, -, heq⟩ | ⟨-, heq⟩
    · rw [heq] at htoken
      cases htoken
    · rw [heq] at htoken
      obtain rfl : (Scan.called source calls).cursor.next.1 = token := Option.some.inj htoken
      rfl

/-- A string over two lines with a character of two bytes in it, and a cell on the second line. -/
theorem places_multiline :
    (start.answers? "\"é\n\" |a|".toList [.next]).map (·.2) = some ⟨⟨5, 2⟩, false⟩ ∧
    (⟨5⟩ : String.Pos.Raw).IsValid "\"é\n\" |a|" ∧
    (OffsetScan.mk ⟨5, 2⟩ false).answer? "\"é\n\" |a|".toList .read =
      some (some ⟨.tableData, "a", 2⟩, ⟨⟨8, 2⟩, false⟩) ∧
    ∃ before after, "\"é\n\" |a|".toList = before ++ after ∧
      2 = 1 + (before ++ after.takeWhile isIndent).count '\n' := by
  have hcall : (start.answers? "\"é\n\" |a|".toList [.next]).map (·.2) =
      some ⟨⟨5, 2⟩, false⟩ := by decide +kernel
  have hcell : (OffsetScan.mk ⟨5, 2⟩ false).answer? "\"é\n\" |a|".toList .read =
      some (some ⟨.tableData, "a", 2⟩, ⟨⟨8, 2⟩, false⟩) := by decide +kernel
  obtain ⟨answers, s, before, after, hanswers, -, -, htext, -, hvalid, -, -, hline, -⟩ :=
    places "\"é\n\" |a|" [.next]
  rw [hanswers, Option.map_some, Option.some.injEq] at hcall
  subst hcall
  exact ⟨by rw [hanswers]; rfl, hvalid, hcell, before, after, htext, hline .read _ _ hcell⟩

end OffsetScan

end FeatureDoc
