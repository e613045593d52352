import FeatureDoc.ParseError

/-!
# Consuming a list of tokens

A reader takes a list of tokens and gives a value or an error, in both cases with the tokens that
it left: a document with an error can be read on from there. Token lists end with an end token,
which no reader consumes.

* `Parsed α` is the outcome of a reader, `Parsed.rest` the tokens that it left, and
  `Parsed.andThen` goes on with another reader where the first one stopped.
* `peek`, `skipTrivia`, `expect` and `lineEnd` are the readers that the others are made of;
  `takeLine` and `dropLine` split a list at the end of the line.
* Every reader leaves an end of its list, whatever the outcome: `Parsed.rest_andThen_suffix` is
  what carries this from the parts of a reader to the whole.
-/

namespace FeatureDoc

/-- An error and the tokens that were left when it was noticed. -/
structure Failure where
  /-- The error. -/
  error : ParseError
  /-- The tokens that were left. -/
  rest : List Token
  deriving DecidableEq, Repr

/-- What a reader makes of a list of tokens: a value and the tokens that are left, or an error. -/
abbrev Parsed (α : Type) := Except Failure (α × List Token)

/-- Go on with another reader from the tokens that are left. -/
def Parsed.andThen {α β : Type} (p : Parsed α) (f : α → List Token → Parsed β) : Parsed β :=
  match p with
  | .ok (a, rest) => f a rest
  | .error failure => .error failure

theorem Parsed.ok_andThen {α β : Type} (x : α × List Token) (f : α → List Token → Parsed β) :
    Parsed.andThen (.ok x) f = f x.1 x.2 := rfl

theorem Parsed.andThen_eq_ok {α β : Type} {p : Parsed α} {f : α → List Token → Parsed β}
    {b : β × List Token} :
    p.andThen f = .ok b ↔ ∃ a rest, p = .ok (a, rest) ∧ f a rest = .ok b := by
  unfold andThen
  split <;> simp [and_assoc]

theorem Parsed.andThen_eq_error {α β : Type} {p : Parsed α} {f : α → List Token → Parsed β}
    {failure : Failure} :
    p.andThen f = .error failure ↔
      p = .error failure ∨ ∃ a rest, p = .ok (a, rest) ∧ f a rest = .error failure := by
  unfold andThen
  split <;> simp [and_assoc]

theorem Parsed.andThen_assoc {α β γ : Type} (p : Parsed α) (f : α → List Token → Parsed β)
    (g : β → List Token → Parsed γ) :
    (p.andThen f).andThen g = p.andThen fun a rest => (f a rest).andThen g := by
  cases p with
  | ok x => rfl
  | error failure => rfl

/-- The tokens that are left. -/
def Parsed.rest {α : Type} : Parsed α → List Token
  | .ok (_, rest) => rest
  | .error failure => failure.rest

theorem Parsed.rest_andThen_suffix {α β : Type} {p : Parsed α} {f : α → List Token → Parsed β}
    {ts : List Token} (hp : p.rest <:+ ts) (hf : ∀ a rest, (f a rest).rest <:+ rest) :
    (p.andThen f).rest <:+ ts := by
  match p with
  | .ok (a, rest) => exact (hf a rest).trans hp
  | .error _ => exact hp

theorem Parsed.suffix_of_eq_ok {α : Type} {p : Parsed α} {a : α} {ts rest : List Token}
    (hp : p.rest <:+ ts) (h : p = .ok (a, rest)) : rest <:+ ts := by
  rw [h] at hp
  exact hp

/-- The next token. -/
def peek (ts : List Token) : Token := ts.headD ⟨.eof, "", 1⟩

/-- Refuse the next token. -/
def refuse {α : Type} (expected : Kind) (ts : List Token) : Parsed α :=
  .error ⟨.unexpected expected (peek ts), ts⟩

/-- Skip line ends and comments. -/
def skipTrivia (ts : List Token) : List Token := ts.dropWhile (·.kind.isTrivia)

/-- Skip one line end, if there is one. -/
def skipNewline (ts : List Token) : List Token := if (peek ts).kind = .newline then ts.tail else ts

/-- The tokens before the end of the line. -/
def takeLine (ts : List Token) : List Token := ts.takeWhile fun t => !t.kind.endsLine

/-- The tokens from the end of the line on. -/
def dropLine (ts : List Token) : List Token := ts.dropWhile fun t => !t.kind.endsLine

/-- Consume a token of a kind. -/
def expect (kind : Kind) (ts : List Token) : Parsed Unit :=
  if (peek ts).kind = kind then .ok ((), ts.tail) else refuse kind ts

/-- Consume the end of the line; the end of the text is one, too. -/
def lineEnd (ts : List Token) : Parsed Unit :=
  match (peek ts).kind with
  | .newline => .ok ((), ts.tail)
  | .eof => .ok ((), ts)
  | _ => refuse .newline ts

/-! ## Lines -/

@[simp] theorem peek_cons (t : Token) (ts : List Token) : peek (t :: ts) = t := rfl

@[simp] theorem takeLine_cons_of_endsLine {t : Token} (h : t.kind.endsLine = true)
    (ts : List Token) : takeLine (t :: ts) = [] := by
  simp [takeLine, h]

@[simp] theorem takeLine_cons {t : Token} (h : t.kind.endsLine = false) (ts : List Token) :
    takeLine (t :: ts) = t :: takeLine ts := by
  simp [takeLine, h]

@[simp] theorem dropLine_cons_of_endsLine {t : Token} (h : t.kind.endsLine = true)
    (ts : List Token) : dropLine (t :: ts) = t :: ts := by
  simp [dropLine, h]

@[simp] theorem dropLine_cons {t : Token} (h : t.kind.endsLine = false) (ts : List Token) :
    dropLine (t :: ts) = dropLine ts := by
  simp [dropLine, h]

theorem takeLine_append_dropLine (ts : List Token) : takeLine ts ++ dropLine ts = ts :=
  List.takeWhile_append_dropWhile

/-- A line goes up to a line end or to the end of the text. -/
theorem endsLine_peek_dropLine (ts : List Token) : (peek (dropLine ts)).kind.endsLine = true := by
  induction ts with
  | nil => rfl
  | cons t ts ih =>
    by_cases h : t.kind.endsLine = true
    · rwa [dropLine_cons_of_endsLine h]
    · rwa [dropLine_cons (Bool.not_eq_true _ ▸ h)]

/-! ## Trivia -/

theorem skipTrivia_cons {t : Token} (h : t.kind.isTrivia = true) (ts : List Token) :
    skipTrivia (t :: ts) = skipTrivia ts := by
  simp [skipTrivia, h]

theorem skipTrivia_eq_self {ts : List Token} (h : (peek ts).kind.isTrivia = false) :
    skipTrivia ts = ts := by
  cases ts with
  | nil => rfl
  | cons t ts =>
    have ht : t.kind.isTrivia = false := h
    simp [skipTrivia, ht]

/-- No trivia are left. -/
theorem isTrivia_peek_skipTrivia (ts : List Token) :
    (peek (skipTrivia ts)).kind.isTrivia = false := by
  induction ts with
  | nil => rfl
  | cons t ts ih =>
    cases h : t.kind.isTrivia with
    | true => rwa [skipTrivia_cons h]
    | false =>
      rw [skipTrivia_eq_self (show (peek (t :: ts)).kind.isTrivia = false from h)]
      exact h

/-! ## What is left -/

theorem skipTrivia_suffix (ts : List Token) : skipTrivia ts <:+ ts := List.dropWhile_suffix _

theorem dropLine_suffix (ts : List Token) : dropLine ts <:+ ts := List.dropWhile_suffix _

theorem skipNewline_suffix (ts : List Token) : skipNewline ts <:+ ts := by
  unfold skipNewline
  split
  · exact List.tail_suffix ts
  · exact List.suffix_rfl

theorem rest_expect_suffix (kind : Kind) (ts : List Token) : (expect kind ts).rest <:+ ts := by
  unfold expect
  split
  · exact List.tail_suffix ts
  · exact List.suffix_rfl

theorem rest_lineEnd_suffix (ts : List Token) : (lineEnd ts).rest <:+ ts := by
  unfold lineEnd
  split
  · exact List.tail_suffix ts
  · exact List.suffix_rfl
  · exact List.suffix_rfl

end FeatureDoc
