import FeatureDoc.Proofs.Text.TakeWhile
import FeatureDoc.Proofs.Token.Stream

/-!
# Texts one after the other

Once its last line is closed, a text is scanned without a look at what comes after it: no lexeme but
a string or a block reaches over a line end, and these only lack their end where they take up all
that is left of the text.

* `Lexeme.read_append` is this fact for a lexeme.
* `Token.mapLine g` is a token on another line. `Cursor.tokens_mapLine` says that lines are counted
  from the line of the cursor.
* `Cursor.Closed.tokens_append` says what the tokens of two texts one after the other are, from any
  place on; `tokens_append_mapLine` is the main statement, about whole texts.
-/

namespace FeatureDoc

section Lists

variable {α : Type} {l m : List α}

theorem take_drop_append {n k : Nat} (h : n + k ≤ l.length) :
    ((l ++ m).drop n).take k = (l.drop n).take k := by
  rw [List.drop_append_of_le_length (by omega), List.take_append_of_le_length]
  rw [List.length_drop]
  omega

theorem getLast?_of_suffix {x : α} (h : l.getLast? = some x) (hs : m <:+ l) (hm : m ≠ []) :
    m.getLast? = some x := by
  obtain ⟨k, rfl⟩ := hs
  rwa [List.getLast?_append_of_ne_nil k hm] at h

end Lists

/-! ## Lexemes -/

namespace Lexeme

variable {cs b : List Char}

/-- A block that is closed stays as it is, whatever comes after it. -/
theorem beforeTripleQuote_append (h : beforeTripleQuote cs ≠ cs) (b : List Char) :
    (beforeTripleQuote cs).length + 3 ≤ cs.length ∧
      beforeTripleQuote (cs ++ b) = beforeTripleQuote cs := by
  fun_induction beforeTripleQuote cs with
  | case1 cs => exact ⟨by simp, rfl⟩
  | case2 c cs hquote ih =>
    have hne : beforeTripleQuote cs ≠ cs := fun heq => h (by rw [heq])
    obtain ⟨hlen, happend⟩ := ih hne
    refine ⟨by simpa using hlen, ?_⟩
    rw [List.cons_append, beforeTripleQuote, happend]
    -- three characters are there already, so no block ends earlier than before
    intro more hc hcs
    rcases cs with _ | ⟨d, _ | ⟨d', cs⟩⟩
    · simp at hlen
    · simp at hlen
    · simp only [List.cons_append, List.cons.injEq] at hcs
      exact hquote cs hc (by rw [hcs.1, hcs.2.1])
  | case3 => exact absurd rfl h

theorem quoted_of_ne {c : Char} (hc : c ≠ '"') (cs : List Char) :
    quoted (c :: cs) = ⟨.string, (c :: cs).takeWhile (· != '"'),
      '"' :: (c :: cs).takeWhile (· != '"') ++
        ((c :: cs).drop ((c :: cs).takeWhile (· != '"')).length).take 1⟩ := by
  unfold quoted
  split
  · next h => exact absurd (List.cons.inj h).1 hc
  · next h => exact absurd (List.cons.inj h).1 hc
  · rfl

/-- A string or a block that ends before the end of the text stays as it is. -/
theorem quoted_append (hlast : cs.getLast? = some '\n') (hraw : (quoted cs).raw ≠ '"' :: cs)
    (b : List Char) : quoted (cs ++ b) = quoted cs := by
  rcases cs with _ | ⟨c, cs⟩
  · cases hlast
  by_cases hc : c = '"'
  · subst hc
    rcases cs with _ | ⟨d, cs⟩
    · simp at hlast
    by_cases hd : d = '"'
    · subst hd
      have hne : beforeTripleQuote cs ≠ cs := by
        intro heq
        apply hraw
        simp [quoted, heq]
      obtain ⟨hlen, happend⟩ := beforeTripleQuote_append hne b
      simp only [List.cons_append, quoted, happend, take_drop_append hlen]
    · simp [quoted, hd]
  · rw [quoted_of_ne hc] at hraw
    have hmem : ∃ x ∈ c :: cs, (x != '"') = false := by
      by_contra hall
      apply hraw
      have hbody : (c :: cs).takeWhile (· != '"') = c :: cs := by
        refine List.takeWhile_eq_self_iff.2 fun x hx => ?_
        by_contra hx'
        exact hall ⟨x, hx, by simpa using hx'⟩
      rw [hbody]
      simp
    have hlen : ((c :: cs).takeWhile (· != '"')).length + 1 ≤ (c :: cs).length :=
      length_takeWhile_lt_of_exists hmem
    have hbody := takeWhile_append_of_exists (m := b) hmem
    have htake := take_drop_append (m := b) hlen
    rw [List.cons_append] at hbody htake ⊢
    rw [quoted_of_ne hc, quoted_of_ne hc, hbody, htake]

theorem mem_dropWhile_isIndent (h : '\n' ∈ cs) : '\n' ∈ cs.dropWhile isIndent := by
  rw [← List.takeWhile_append_dropWhile (p := isIndent) (l := cs), List.mem_append] at h
  exact h.resolve_left fun hind => by simpa [isIndent] using List.mem_takeWhile_imp hind

/-- A cell stops at the line end at the latest. -/
theorem cell_append (h : '\n' ∈ cs) (b : List Char) : cell (cs ++ b) = cell cs := by
  have hpad : ∃ x ∈ cs, isIndent x = false := ⟨'\n', h, rfl⟩
  have hmem := mem_dropWhile_isIndent h
  unfold cell
  rw [takeWhile_append_of_exists hpad, dropWhile_append_of_exists hpad]
  rcases hrest : cs.dropWhile isIndent with _ | ⟨c, rest⟩
  · rw [hrest] at hmem
    cases hmem
  · by_cases hc : c = '\n'
    · subst hc
      rfl
    · rw [hrest] at hmem
      have hstop : ∃ x ∈ c :: rest, (x != '|' && x != '\n') = false := ⟨'\n', hmem, rfl⟩
      have hbody := takeWhile_append_of_exists (m := b) hstop
      rw [List.cons_append] at hbody ⊢
      simp [hc, hbody]

theorem word_append (c : Char) (h : '\n' ∈ cs) (b : List Char) :
    word c (cs ++ b) = word c cs := by
  have hletter : ∃ x ∈ cs, Text.isLetter x = false := ⟨'\n', h, by decide +kernel⟩
  have hbody : ∃ x ∈ cs, isBodyChar x = false := ⟨'\n', h, by decide +kernel⟩
  unfold word
  rw [takeWhile_append_of_exists hletter, takeWhile_append_of_exists hbody]

theorem exampleValue_append (h : closesOnLine cs = true) (b : List Char) :
    exampleValue (cs ++ b) = exampleValue cs := by
  have hmem : ∃ x ∈ cs, (x != '>') = false := by
    refine ⟨'>', (List.takeWhile_sublist _).subset (List.contains_iff_mem.1 h), by decide⟩
  have hlen : (cs.takeWhile (· != '>')).length + 1 ≤ cs.length :=
    length_takeWhile_lt_of_exists hmem
  unfold exampleValue
  dsimp only
  rw [takeWhile_append_of_exists hmem, take_drop_append hlen]

/-- The rules of `read` as a chain of tests. -/
theorem read_cons (c : Char) (cs : List Char) : read (c :: cs) =
    if c = '#' then comment cs
    else if c = ':' then ⟨.colon, [':'], [':']⟩
    else if c = '\n' then ⟨.newline, ['\n'], ['\n']⟩
    else if c = '@' then tag cs
    else if c = '"' then quoted cs
    else if c = '|' then cell cs
    else if c = '<' then if closesOnLine cs then exampleValue cs else word c cs
    else if c.isDigit then number (c :: cs) else word c cs := by
  unfold read
  split
  · next h => cases h
  · next h => cases h; rfl
  · next h => cases h; rfl
  · next h => cases h; rfl
  · next h => cases h; rfl
  · next h => cases h; rfl
  · next h => cases h; rfl
  · next h => cases h; rfl
  · next h₁ h₂ h₃ h₄ h₅ h₆ h₇ h =>
    cases h
    rw [if_neg h₁, if_neg h₂, if_neg h₃, if_neg h₄, if_neg h₅, if_neg h₆, if_neg h₇]

/-- **A lexeme that ends before the end of a text, or that ends its last line, does not depend on
what comes after the text.** -/
theorem read_append (hlast : cs.getLast? = some '\n')
    (hraw : (read cs).raw ≠ cs ∨ (read cs).kind = .newline) (b : List Char) :
    read (cs ++ b) = read cs := by
  rcases cs with _ | ⟨c, cs⟩
  · cases hlast
  by_cases hnil : cs = []
  · subst hnil
    obtain rfl : c = '\n' := by simpa using hlast
    rfl
  have hlast' := getLast?_of_suffix hlast (List.suffix_cons c cs) hnil
  have hmem : '\n' ∈ cs := List.mem_of_getLast? hlast'
  have hline : ∃ x ∈ cs, (x != '\n') = false := ⟨'\n', hmem, rfl⟩
  have hcloses : closesOnLine (cs ++ b) = closesOnLine cs := by
    rw [closesOnLine, takeWhile_append_of_exists hline, closesOnLine]
  rw [List.cons_append, read_cons, read_cons, hcloses]
  refine ite_congr rfl (fun _ => ?_) fun _ => ?_
  · rw [comment, takeWhile_append_of_exists hline, comment]
  refine ite_congr rfl (fun _ => rfl) fun _ => ite_congr rfl (fun _ => rfl) fun _ => ?_
  refine ite_congr rfl (fun _ => ?_) fun _ => ?_
  · have hstop : ∃ x ∈ cs, Text.isTagChar x = false := ⟨'\n', hmem, by decide +kernel⟩
    rw [tag, takeWhile_append_of_exists hstop, tag]
  refine ite_congr rfl (fun hquote => ?_) fun _ => ?_
  · subst hquote
    have hkind : (quoted cs).kind ≠ .newline := by
      unfold quoted
      split <;> simp
    exact quoted_append hlast' (hraw.resolve_right hkind) b
  refine ite_congr rfl (fun _ => cell_append hmem b) fun _ => ?_
  refine ite_congr rfl (fun _ => ?_) fun _ => ?_
  · exact ite_congr rfl (fun hclosed => exampleValue_append hclosed b) fun _ => word_append c hmem b
  refine ite_congr rfl (fun _ => ?_) fun _ => word_append c hmem b
  have hstop : ∃ x ∈ c :: cs, x.isDigit = false :=
    ⟨'\n', List.mem_cons_of_mem c hmem, by decide +kernel⟩
  rw [number, ← List.cons_append, takeWhile_append_of_exists hstop, number]

theorem kind_word_ne_eof (c : Char) (cs : List Char) : (word c cs).kind ≠ .eof := by
  dsimp only [word]
  split
  · next k hk =>
    rintro rfl
    cases Kind.isKeyword_of_ofKeyword? hk
  · exact nofun

/-- A text with a line end is not at its end. -/
theorem kind_read_ne_eof (h : '\n' ∈ cs) : (read cs).kind ≠ .eof := by
  rcases cs with _ | ⟨c, cs⟩
  · cases h
  rw [read_cons]
  split
  · exact nofun
  split
  · exact nofun
  split
  · exact nofun
  split
  · exact nofun
  split
  · unfold quoted
    split <;> exact nofun
  split
  · next hpipe =>
    subst hpipe
    have hmem : '\n' ∈ cs := (List.mem_cons.1 h).resolve_left (by decide)
    have hne : cs.dropWhile isIndent ≠ [] := List.ne_nil_of_mem (mem_dropWhile_isIndent hmem)
    unfold cell
    split
    · next hnil => exact absurd hnil hne
    · exact nofun
    · exact nofun
  split
  · split
    · exact nofun
    · exact kind_word_ne_eof c cs
  split
  · exact nofun
  · exact kind_word_ne_eof c cs

end Lexeme

/-! ## Tokens -/

/-- The token on another line. -/
def Token.mapLine (g : Nat → Nat) (t : Token) : Token := { t with line := g t.line }

@[simp] theorem Token.kind_mapLine (g : Nat → Nat) (t : Token) : (t.mapLine g).kind = t.kind := rfl

namespace Cursor

/-- Lines are counted from the line of the cursor. -/
theorem tokens_mapLine (c : Cursor) (k : Nat) :
    (⟨c.rest, c.line + k⟩ : Cursor).tokens = c.tokens.map (Token.mapLine (· + k)) := by
  induction c using tokens.induct with
  | case1 c h =>
    have hk : (⟨c.rest, c.line + k⟩ : Cursor).next.1.kind = .eof := h
    rw [tokens_of_eof h, tokens_of_eof hk]
    rfl
  | case2 c h ih =>
    have hk : (⟨c.rest, c.line + k⟩ : Cursor).next.1.kind ≠ .eof := h
    have hnext : (⟨c.rest, c.line + k⟩ : Cursor).next.2 =
        ⟨c.next.2.rest, c.next.2.line + k⟩ := by
      simp only [next_eq, lexeme, Nat.add_right_comm]
    rw [tokens_of_ne_eof h, tokens_of_ne_eof hk, hnext, ih]
    rfl

theorem ne_nil_tokens (c : Cursor) : c.tokens ≠ [] := by
  have h := c.head?_tokens
  intro hnil
  rw [hnil] at h
  cases h

/-- The last line of the text that is left is closed: the text ends with a line end, and the last
token is one. -/
structure Closed (c : Cursor) : Prop where
  /-- The text ends with a line end. -/
  rest : c.rest = [] ∨ c.rest.getLast? = some '\n'
  /-- The last token before the end token is a line end. -/
  newline : ∀ t ∈ c.tokens.dropLast.getLast?, t.kind = .newline

namespace Closed

variable {c : Cursor}

theorem kind_next_of_ne_nil (h : c.Closed) (hne : c.rest ≠ []) : c.next.1.kind ≠ .eof :=
  Lexeme.kind_read_ne_eof
    (Lexeme.mem_dropWhile_isIndent (List.mem_of_getLast? (h.rest.resolve_left hne)))

theorem rest_ne_nil (hne : c.next.1.kind ≠ .eof) : c.rest ≠ [] := by
  intro hnil
  apply hne
  rw [next_eq, lexeme, hnil]
  rfl

/-- The text that is read next, once the indentation is skipped, ends with a line end. -/
theorem getLast?_dropWhile (h : c.Closed) (hne : c.rest ≠ []) :
    (c.rest.dropWhile isIndent).getLast? = some '\n' := by
  have hlast := h.rest.resolve_left hne
  have hmem := Lexeme.mem_dropWhile_isIndent (List.mem_of_getLast? hlast)
  exact getLast?_of_suffix hlast (List.dropWhile_suffix isIndent) (List.ne_nil_of_mem hmem)

theorem next (h : c.Closed) (hne : c.next.1.kind ≠ .eof) : c.next.2.Closed where
  rest := or_iff_not_imp_left.2 fun hnil =>
    getLast?_of_suffix (h.getLast?_dropWhile (rest_ne_nil hne)) (List.drop_suffix _ _) hnil
  newline := by
    intro t ht
    apply h.newline t
    rw [tokens_of_ne_eof hne, List.dropLast_cons_of_ne_nil c.next.2.ne_nil_tokens,
      List.getLast?_cons, Option.mem_def.1 ht]
    rfl

/-- A lexeme ends before the end of the text, or it is the line end there. -/
theorem raw_ne_or_newline (h : c.Closed) (hne : c.next.1.kind ≠ .eof) :
    c.lexeme.raw ≠ c.rest.dropWhile isIndent ∨ c.lexeme.kind = .newline := by
  refine or_iff_not_imp_left.2 fun hraw => ?_
  rw [not_not] at hraw
  have hend : c.next.2.rest = [] := by
    rw [next_eq, hraw]
    exact List.drop_length
  have heof : c.next.2.next.1.kind = .eof := by
    rw [next_eq c.next.2, lexeme, hend]
    rfl
  apply h.newline c.next.1
  rw [tokens_of_ne_eof hne, tokens_of_eof heof]
  rfl

/-- The next token does not depend on what comes after the text. -/
theorem next_append (h : c.Closed) (hne : c.next.1.kind ≠ .eof) (b : List Char) :
    (⟨c.rest ++ b, c.line⟩ : Cursor).next = (c.next.1, ⟨c.next.2.rest ++ b, c.next.2.line⟩) := by
  have hrest := rest_ne_nil hne
  have hindent : ∃ x ∈ c.rest, isIndent x = false :=
    ⟨'\n', List.mem_of_getLast? (h.rest.resolve_left hrest), rfl⟩
  have hlex : (⟨c.rest ++ b, c.line⟩ : Cursor).lexeme = c.lexeme := by
    rw [lexeme, dropWhile_append_of_exists hindent]
    exact Lexeme.read_append (h.getLast?_dropWhile hrest) (h.raw_ne_or_newline hne) b
  have hlen : c.lexeme.raw.length ≤ (c.rest.dropWhile isIndent).length :=
    (Lexeme.raw_isPrefix _).length_le
  rw [next_eq, hlex, dropWhile_append_of_exists hindent, List.drop_append_of_le_length hlen]
  rfl

/-- **A text whose last line is closed is scanned without what comes after it**, which is scanned as
if it stood alone, from the line on which it starts. -/
theorem tokens_append (h : c.Closed) (b : List Char) :
    (⟨c.rest ++ b, c.line⟩ : Cursor).tokens =
      c.tokens.dropLast ++ (⟨b, c.line + c.rest.count '\n'⟩ : Cursor).tokens := by
  induction c using tokens.induct with
  | case1 c heof =>
    have hnil : c.rest = [] := by
      by_contra hne
      exact h.kind_next_of_ne_nil hne heof
    rw [tokens_of_eof heof, hnil]
    rfl
  | case2 c hne ih =>
    have hnext := h.next_append hne b
    have hne' : (⟨c.rest ++ b, c.line⟩ : Cursor).next.1.kind ≠ .eof := by
      rw [hnext]
      exact hne
    rw [tokens_of_ne_eof hne', hnext, tokens_of_ne_eof hne, ← c.line_add_count_next,
      List.dropLast_cons_of_ne_nil c.next.2.ne_nil_tokens, List.cons_append]
    exact congrArg _ (ih (h.next hne))

end Closed

end Cursor

/-! ## Whole texts -/

variable {a : String}

/-- The last line of a text is closed. -/
theorem closed_of_getLast? (hend : a.toList.getLast? = some '\n')
    (hlast : (tokens a).dropLast.getLast?.map Token.kind = some .newline) :
    (Cursor.ofString a).Closed where
  rest := Or.inr hend
  newline := by
    intro t ht
    rw [tokens, Option.mem_def.1 ht] at hlast
    exact Option.some.inj hlast

/-- The tokens of a text and those of another one after it, which starts on a later line. -/
theorem tokens_append (ha : (Cursor.ofString a).Closed) (b : String) :
    tokens (a ++ b) = (tokens a).dropLast ++
      (⟨b.toList, 1 + a.toList.count '\n'⟩ : Cursor).tokens := by
  have h := ha.tokens_append b.toList
  rwa [Cursor.ofString, ← String.toList_append] at h

/-- The tokens of a text without the end token. -/
def tokensBeforeEnd (source : String) : List Token :=
  (tokens source).filter fun t => t.kind != .eof

/-- The end token is the last one. -/
theorem tokensBeforeEnd_eq (source : String) :
    tokensBeforeEnd source = (tokens source).dropLast := by
  obtain ⟨ts, e, heq, he, hts⟩ := (Cursor.ofString source).tokens_eq_append
  have hall : ts.filter (fun t => t.kind != .eof) = ts :=
    List.filter_eq_self.2 fun t ht => bne_iff_ne.2 (hts t ht)
  rw [tokensBeforeEnd, tokens, heq, List.dropLast_concat, List.filter_append, hall,
    List.filter_singleton, he]
  simp

/-- **Scanning is modular in lines.** Where a text ends with a line end that is a token of its own,
another text may follow: its tokens come after those of the first text, on lines that are later by
the number of line ends in the first text. -/
theorem tokens_append_mapLine (hend : a.toList.getLast? = some '\n')
    (hlast : (tokensBeforeEnd a).getLast?.map Token.kind = some .newline) (b : String) :
    tokens (a ++ b) =
      tokensBeforeEnd a ++ (tokens b).map (Token.mapLine (· + a.toList.count '\n')) := by
  rw [tokensBeforeEnd_eq] at hlast ⊢
  rw [tokens_append (closed_of_getLast? hend hlast)]
  exact congrArg _ ((Cursor.ofString b).tokens_mapLine _)

/-- A string over two lines and a bracket that stays open, in front of a text with a closing bracket
and a string of its own. -/
theorem tokens_append_mapLine_multiline :
    tokens ("\"x\ny\" <a\n" ++ "> \"z\"") =
      [⟨.string, "x\ny", 1⟩, ⟨.stepBody, "<a", 2⟩, ⟨.newline, "\n", 2⟩] ++
        [⟨.stepBody, ">", 3⟩, ⟨.string, "z", 3⟩, ⟨.eof, "", 3⟩] := by
  have hbefore : tokensBeforeEnd "\"x\ny\" <a\n" =
      [⟨.string, "x\ny", 1⟩, ⟨.stepBody, "<a", 2⟩, ⟨.newline, "\n", 2⟩] := by
    decide +kernel
  have hafter : tokens "> \"z\"" = [⟨.stepBody, ">", 1⟩, ⟨.string, "z", 1⟩, ⟨.eof, "", 1⟩] := by
    decide +kernel
  have h := tokens_append_mapLine (a := "\"x\ny\" <a\n") (by decide) (by rw [hbefore]; rfl)
    "> \"z\""
  rw [hbefore, hafter] at h
  exact h

end FeatureDoc
