import FeatureDoc.Proofs.Token.Lexeme
import FeatureDoc.Token.Scan

/-!
# The tokens of a text

Which token can come right after which, and on which line, follows from the characters of the
lexeme before it.

* `Token.Precedes a b` is what holds of two tokens in a row: the first one is not the end token,
  lines never go back, a line end leads to the next line, after a cell there is another cell or the
  end of the line, and after a comment there is the end of the line.
* `Token.Spelled` is what the kind of a token says about its literal.
* `Stream ts` collects both for a list of tokens. The tokens of a text are one
  (`stream_tokens`), and so is every end of them (`Stream.of_suffix`).
* `Cursor.tokens_eq_append` says that the end token is the last one and no other,
  `Cursor.line_of_mem_tokens` that no line lies outside the text.
-/

namespace FeatureDoc

/-- `b` can come right after `a`. -/
structure Token.Precedes (a b : Token) : Prop where
  /-- Nothing comes after the end token. -/
  ne_eof : a.kind ≠ .eof
  /-- Lines never go back. -/
  line_le : a.line ≤ b.line
  /-- A line end leads to the next line. -/
  newline : a.kind = .newline → b.line = a.line + 1
  /-- A row holds only cells and takes up one line. -/
  cell : a.kind = .tableData → b.line = a.line ∧ (b.kind = .tableData ∨ b.kind.endsLine = true)
  /-- A comment goes up to the end of the line. -/
  comment : a.kind = .comment → b.kind.endsLine = true

/-- The literal of a token is made of the characters that its kind allows. -/
structure Token.Spelled (t : Token) : Prop where
  /-- A number has digits only, and at least one. -/
  number : t.kind = .number → t.literal.toList ≠ [] ∧ ∀ c ∈ t.literal.toList, c.isDigit = true
  /-- A tag has tag characters only. -/
  tag : t.kind = .tag → ∀ c ∈ t.literal.toList, Text.isTagChar c = true
  /-- The name in a reference stops at the first closing bracket. -/
  reference : t.kind = .exampleValue → '>' ∉ t.literal.toList

/-- A list of tokens as they come out of a text. -/
structure Stream (ts : List Token) : Prop where
  /-- Each token can come after the one before it. -/
  isChain : ts.IsChain Token.Precedes
  /-- Each literal is as its kind says. -/
  spelled : ∀ t ∈ ts, t.Spelled

theorem Stream.of_suffix {ts rest : List Token} (h : Stream ts) (hs : rest <:+ ts) : Stream rest :=
  ⟨h.isChain.suffix hs, fun t ht => h.spelled t (hs.subset ht)⟩

theorem Stream.tail {ts : List Token} (h : Stream ts) : Stream ts.tail :=
  h.of_suffix (List.tail_suffix ts)

namespace Cursor

/-- The lexeme that is read next. -/
def lexeme (c : Cursor) : Lexeme := Lexeme.read (c.rest.dropWhile isIndent)

theorem next_eq (c : Cursor) : c.next =
    (⟨c.lexeme.kind, String.ofList c.lexeme.literal, c.line⟩,
      ⟨(c.rest.dropWhile isIndent).drop c.lexeme.raw.length,
        c.line + c.lexeme.raw.count '\n'⟩) := rfl

/-- A token takes up its lexeme, with the indentation in front of it. -/
theorem raw_append (c : Cursor) : c.lexeme.raw ++ c.next.2.rest = c.rest.dropWhile isIndent := by
  obtain ⟨after, hafter⟩ := Lexeme.raw_isPrefix (c.rest.dropWhile isIndent)
  have hrest : c.next.2.rest = after :=
    (congrArg (List.drop c.lexeme.raw.length) hafter).symm.trans List.drop_left
  rw [hrest]
  exact hafter

theorem lexeme_fits (c : Cursor) : c.lexeme.Fits c.next.2.rest := Lexeme.read_fits _

theorem tokens_of_eof {c : Cursor} (h : c.next.1.kind = .eof) : c.tokens = [c.next.1] := by
  rw [tokens, if_pos h]

theorem tokens_of_ne_eof {c : Cursor} (h : c.next.1.kind ≠ .eof) :
    c.tokens = c.next.1 :: c.next.2.tokens := by
  rw [tokens, if_neg h]

theorem head?_tokens (c : Cursor) : c.tokens.head? = some c.next.1 := by
  by_cases h : c.next.1.kind = .eof
  · rw [tokens_of_eof h, List.head?_cons]
  · rw [tokens_of_ne_eof h, List.head?_cons]

/-! ## Two tokens in a row -/

theorem spelled_next (c : Cursor) : c.next.1.Spelled := by
  have hfits := c.lexeme_fits
  unfold Lexeme.Fits at hfits
  rw [next_eq]
  refine ⟨fun hk => ?_, fun hk => ?_, fun hk => ?_⟩
  · simpa [show c.lexeme.kind = .number from hk] using hfits
  · simpa [show c.lexeme.kind = .tag from hk] using hfits
  · simpa [show c.lexeme.kind = .exampleValue from hk] using hfits

/-- Where a text goes on with a pipe or a line end, the next token is a cell or ends the line. -/
theorem kind_next_of_head? {c : Cursor} (h : ∀ x ∈ c.rest.head?, x = '|' ∨ x = '\n') :
    c.next.1.kind = .tableData ∨ c.next.1.kind.endsLine = true := by
  obtain ⟨text, line⟩ := c
  rcases text with _ | ⟨x, text⟩
  · exact Or.inr rfl
  · rcases h x rfl with rfl | rfl
    · change (Lexeme.cell text).kind = .tableData ∨ (Lexeme.cell text).kind.endsLine = true
      unfold Lexeme.cell
      split
      · exact Or.inr rfl
      · exact Or.inr rfl
      · exact Or.inl rfl
    · exact Or.inr rfl

/-- Where a text goes on with a line end, the next token ends the line. -/
theorem endsLine_next_of_head? {c : Cursor} (h : ∀ x ∈ c.rest.head?, x = '\n') :
    c.next.1.kind.endsLine = true := by
  obtain ⟨text, line⟩ := c
  rcases text with _ | ⟨x, text⟩
  · rfl
  · obtain rfl := h x rfl
    rfl

theorem precedes_next {c : Cursor} (h : c.next.1.kind ≠ .eof) :
    c.next.1.Precedes c.next.2.next.1 := by
  have hfits := c.lexeme_fits
  unfold Lexeme.Fits at hfits
  refine ⟨h, Nat.le_add_right _ _, fun hk => ?_, fun hk => ?_, fun hk => ?_⟩
  · rw [show c.lexeme.kind = .newline from hk] at hfits
    exact congrArg (c.line + ·) hfits
  · rw [show c.lexeme.kind = .tableData from hk] at hfits
    exact ⟨congrArg (c.line + ·) hfits.1, kind_next_of_head? hfits.2⟩
  · rw [show c.lexeme.kind = .comment from hk] at hfits
    exact endsLine_next_of_head? hfits

/-! ## All tokens from a place on -/

/-- The tokens from any place on are a stream. -/
theorem stream_tokens (c : Cursor) : Stream c.tokens := by
  induction c using tokens.induct with
  | case1 c h =>
    rw [tokens_of_eof h]
    exact ⟨List.isChain_singleton _, fun t ht => List.mem_singleton.1 ht ▸ c.spelled_next⟩
  | case2 c h ih =>
    rw [tokens_of_ne_eof h]
    refine ⟨ih.isChain.cons fun t ht => ?_, fun t ht => ?_⟩
    · rw [head?_tokens] at ht
      exact Option.some.inj ht ▸ precedes_next h
    · rcases List.mem_cons.1 ht with rfl | ht
      · exact c.spelled_next
      · exact ih.spelled t ht

/-- Every token is a lexeme at the front of an end of the text. -/
theorem exists_read_of_mem_tokens {c : Cursor} {t : Token} (h : t ∈ c.tokens) :
    ∃ text, text <:+ c.rest ∧ t.kind = (Lexeme.read text).kind ∧
      t.literal.toList = (Lexeme.read text).literal := by
  have hnext : ∀ c : Cursor, ∃ text, text <:+ c.rest ∧ c.next.1.kind = (Lexeme.read text).kind ∧
      c.next.1.literal.toList = (Lexeme.read text).literal := fun c =>
    ⟨_, List.dropWhile_suffix _, rfl, String.toList_ofList⟩
  induction c using tokens.induct with
  | case1 c he =>
    rw [tokens_of_eof he, List.mem_singleton] at h
    exact h ▸ hnext c
  | case2 c he ih =>
    rw [tokens_of_ne_eof he, List.mem_cons] at h
    rcases h with rfl | h
    · exact hnext c
    · obtain ⟨text, htext, hread⟩ := ih h
      have hrest : c.next.2.rest <:+ c.rest :=
        (List.drop_suffix _ _).trans (List.dropWhile_suffix _)
      exact ⟨text, htext.trans hrest, hread⟩

/-- The last token is the end token, and no other one is. -/
theorem tokens_eq_append (c : Cursor) :
    ∃ ts e, c.tokens = ts ++ [e] ∧ e.kind = .eof ∧ ∀ t ∈ ts, t.kind ≠ .eof := by
  induction c using tokens.induct with
  | case1 c h => exact ⟨[], c.next.1, tokens_of_eof h, h, by simp⟩
  | case2 c h ih =>
    obtain ⟨ts, e, heq, he, hts⟩ := ih
    refine ⟨c.next.1 :: ts, e, by rw [tokens_of_ne_eof h, heq, List.cons_append], he, ?_⟩
    simpa using ⟨h, hts⟩

/-- Moving past a token keeps the number of the last line. -/
theorem line_add_count_next (c : Cursor) :
    c.next.2.line + c.next.2.rest.count '\n' = c.line + c.rest.count '\n' := by
  have hindent : (c.rest.takeWhile isIndent).count '\n' = 0 :=
    Lexeme.count_newline_takeWhile rfl _
  have hcount : c.rest.count '\n' = c.lexeme.raw.count '\n' + c.next.2.rest.count '\n' := by
    conv_lhs => rw [← List.takeWhile_append_dropWhile (p := isIndent) (l := c.rest), ← c.raw_append]
    rw [List.count_append, List.count_append, hindent, Nat.zero_add]
  rw [hcount, ← Nat.add_assoc]
  rfl

/-- Every token stands on a line of the text. -/
theorem line_of_mem_tokens {c : Cursor} {t : Token} (h : t ∈ c.tokens) :
    c.line ≤ t.line ∧ t.line ≤ c.line + c.rest.count '\n' := by
  induction c using tokens.induct with
  | case1 c he =>
    rw [tokens_of_eof he, List.mem_singleton] at h
    subst h
    exact ⟨le_rfl, Nat.le_add_right _ _⟩
  | case2 c he ih =>
    rw [tokens_of_ne_eof he, List.mem_cons] at h
    rcases h with rfl | h
    · exact ⟨le_rfl, Nat.le_add_right _ _⟩
    · have hline : c.line ≤ c.next.2.line := Nat.le_add_right _ _
      have hlast := c.line_add_count_next
      have := ih h
      omega

end Cursor

/-- **The tokens of a text are a stream.** -/
theorem stream_tokens (source : String) : Stream (tokens source) :=
  Cursor.stream_tokens _

end FeatureDoc
