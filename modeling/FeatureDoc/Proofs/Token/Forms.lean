import FeatureDoc.Proofs.Token.Append

/-!
# Where lexemes with delimiters end

References, strings, blocks and cells go up to a delimiter. The rules that read them are given by
what they look like: a text that has a form is read as the lexeme of that form, whatever comes
after it.

* `Lexeme.closesOnLine_cases` and `Lexeme.exampleValue_append_bracket` are about references.
* `Lexeme.QuotedAs` lists the five forms of strings and blocks (`Lexeme.exists_quotedAs`,
  `Lexeme.QuotedAs.quoted_eq`).
* `Lexeme.CellAs` lists the three forms of what stands after a pipe (`Lexeme.exists_cellAs`,
  `Lexeme.CellAs.cell_eq`).
-/

namespace FeatureDoc

namespace Lexeme

/-! ## References -/

/-- A reference ends at the first closing bracket. -/
theorem exampleValue_append_bracket {name : List Char} (h : '>' ∉ name) (rest : List Char) :
    exampleValue (name ++ '>' :: rest) = ⟨.exampleValue, name, '<' :: name ++ ['>']⟩ := by
  rw [exampleValue, (takeWhile_ne_append h rest).1, List.drop_left]
  rfl

/-- An angle bracket that is closed on its line. -/
theorem closesOnLine_cases {cs : List Char} (h : closesOnLine cs = true) :
    ∃ name rest, cs = name ++ '>' :: rest ∧ '>' ∉ name ∧ '\n' ∉ name := by
  obtain ⟨name, after, hline, hname⟩ :=
    List.eq_append_cons_of_mem (List.contains_iff_mem.1 (show _ = true from h))
  have hsplit := List.takeWhile_append_dropWhile (p := (· != '\n')) (l := cs)
  rw [hline, List.append_assoc, List.cons_append] at hsplit
  refine ⟨name, _, hsplit.symm, hname, fun hmem => ?_⟩
  have hmem' : '\n' ∈ cs.takeWhile (· != '\n') := hline ▸ List.mem_append_left _ hmem
  simpa using List.mem_takeWhile_imp hmem'

/-! ## Strings and blocks -/

/-- Three characters that are no three quotes end no block. -/
theorem beforeTripleQuote_cons {c d e : Char} (h : ¬ (c = '"' ∧ d = '"' ∧ e = '"'))
    (cs : List Char) :
    beforeTripleQuote (c :: d :: e :: cs) = c :: beforeTripleQuote (d :: e :: cs) := by
  rw [beforeTripleQuote]
  intro more hc hcs
  simp only [List.cons.injEq] at hcs
  exact h ⟨hc, hcs.1, hcs.2.1⟩

/-- The end of a block is found without a look at what comes after it. -/
theorem beforeTripleQuote_append_congr {l m : List Char}
    (h : (beforeTripleQuote (l ++ m)).length + 3 ≤ l.length) (m' : List Char) :
    beforeTripleQuote (l ++ m') = beforeTripleQuote (l ++ m) := by
  induction l with
  | nil => simp at h
  | cons c l ih =>
    rcases l with _ | ⟨d, _ | ⟨e, l⟩⟩
    · simp at h
    · simp at h
    · by_cases hquotes : c = '"' ∧ d = '"' ∧ e = '"'
      · obtain ⟨rfl, rfl, rfl⟩ := hquotes
        rfl
      · simp only [List.cons_append, beforeTripleQuote_cons hquotes, List.length_cons] at h ih ⊢
        rw [ih (by omega)]

/-- A block goes up to three quotes, or to the end of the text. -/
theorem beforeTripleQuote_cases (cs : List Char) : beforeTripleQuote cs = cs ∨
    ∃ rest, cs = beforeTripleQuote cs ++ '"' :: '"' :: '"' :: rest := by
  fun_induction beforeTripleQuote cs with
  | case1 rest => exact Or.inr ⟨rest, rfl⟩
  | case2 c cs _ ih =>
    rcases ih with ih | ⟨rest, ih⟩
    · exact Or.inl (congrArg _ ih)
    · exact Or.inr ⟨rest, congrArg _ ih⟩
  | case3 => exact Or.inl rfl

/-- The text after a quote, the lexeme that it is the front of, and what is left. -/
inductive QuotedAs : List Char → Lexeme → List Char → Prop
  /-- Two quotes are an empty string, unless there is a third one. -/
  | empty {rest : List Char} (h : rest.head? ≠ some '"') :
      QuotedAs ('"' :: rest) ⟨.string, [], ['"', '"']⟩ rest
  /-- A string. -/
  | string {body rest : List Char} (hne : body ≠ []) (h : '"' ∉ body) :
      QuotedAs (body ++ '"' :: rest) ⟨.string, body, '"' :: body ++ ['"']⟩ rest
  /-- A string that lacks its end. -/
  | openString {body : List Char} (h : '"' ∉ body) :
      QuotedAs body ⟨.string, body, '"' :: body⟩ []
  /-- A block. -/
  | block {body rest : List Char}
      (h : beforeTripleQuote (body ++ '"' :: '"' :: '"' :: rest) = body) :
      QuotedAs ('"' :: '"' :: (body ++ '"' :: '"' :: '"' :: rest))
        ⟨.docString, Text.trim body, '"' :: '"' :: '"' :: body ++ ['"', '"', '"']⟩ rest
  /-- A block that lacks its end. -/
  | openBlock {body : List Char} (h : beforeTripleQuote body = body) :
      QuotedAs ('"' :: '"' :: body) ⟨.docString, Text.trim body, '"' :: '"' :: '"' :: body⟩ []

theorem QuotedAs.raw_append {cs rest : List Char} {x : Lexeme} (h : QuotedAs cs x rest) :
    x.raw ++ rest = '"' :: cs := by
  cases h <;> simp

theorem takeWhile_ne_quote {body : List Char} (h : '"' ∉ body) (rest : List Char) :
    (body ++ '"' :: rest).takeWhile (· != '"') = body ∧ body.takeWhile (· != '"') = body := by
  have hbody : ∀ c ∈ body, (c != '"') = true := fun c hc => bne_iff_ne.2 fun heq => h (heq ▸ hc)
  exact ⟨(takeWhile_ne_append h rest).1, List.takeWhile_eq_self_iff.2 hbody⟩

/-- Each form is read as the lexeme that it says. -/
theorem QuotedAs.quoted_eq {cs rest : List Char} {x : Lexeme} (h : QuotedAs cs x rest) :
    quoted cs = x := by
  cases h with
  | empty h =>
    rcases rest with _ | ⟨c, rest⟩
    · rfl
    · have hc : c ≠ '"' := fun heq => h (congrArg some heq)
      simp [quoted, hc]
  | @string body _ hne h =>
    obtain ⟨c, body, rfl⟩ := List.exists_cons_of_ne_nil hne
    have hc : c ≠ '"' := fun heq => h (heq ▸ List.mem_cons_self)
    have htake := (takeWhile_ne_quote h rest).1
    rw [List.cons_append] at htake ⊢
    rw [quoted_of_ne hc, htake, ← List.cons_append, List.drop_left]
    rfl
  | openString h =>
    rcases cs with _ | ⟨c, cs⟩
    · rfl
    · have hc : c ≠ '"' := fun heq => h (heq ▸ List.mem_cons_self)
      rw [quoted_of_ne hc, (takeWhile_ne_quote h []).2, List.drop_length]
      simp
  | block h =>
    rw [quoted]
    simp only [h, List.drop_left]
    rfl
  | openBlock h =>
    rw [quoted]
    simp only [h, List.drop_length]
    simp

/-- Every quoted lexeme has one of the forms. -/
theorem exists_quotedAs (cs : List Char) : ∃ rest, QuotedAs cs (quoted cs) rest := by
  suffices h : ∃ x rest, QuotedAs cs x rest by
    obtain ⟨x, rest, hform⟩ := h
    exact ⟨rest, hform.quoted_eq ▸ hform⟩
  rcases cs with _ | ⟨c, cs⟩
  · exact ⟨_, _, .openString (by simp)⟩
  by_cases hc : c = '"'
  · subst hc
    by_cases hhead : cs.head? = some '"'
    · obtain ⟨body, rfl⟩ : ∃ body, cs = '"' :: body := List.head?_eq_some_iff.1 hhead
      rcases beforeTripleQuote_cases body with hbody | ⟨rest, hbody⟩
      · exact ⟨_, _, .openBlock hbody⟩
      · generalize hblock : beforeTripleQuote body = block at hbody
        subst hbody
        exact ⟨_, _, .block hblock⟩
    · exact ⟨_, _, .empty hhead⟩
  · by_cases hmem : '"' ∈ c :: cs
    · obtain ⟨body, rest, heq, hbody⟩ := List.eq_append_cons_of_mem hmem
      rw [heq]
      refine ⟨_, _, .string (fun hnil => hc ?_) hbody⟩
      rw [hnil, List.nil_append, List.cons.injEq] at heq
      exact heq.1
    · exact ⟨_, _, .openString hmem⟩

/-! ## Cells -/

/-- The text after a pipe, the lexeme that it is the front of, and what is left. -/
inductive CellAs : List Char → Lexeme → List Char → Prop
  /-- The last pipe of the text. -/
  | ending {pad : List Char} (hpad : ∀ c ∈ pad, isIndent c = true) :
      CellAs pad ⟨.eof, [], '|' :: pad⟩ []
  /-- The last pipe of a line. -/
  | newline {pad rest : List Char} (hpad : ∀ c ∈ pad, isIndent c = true) :
      CellAs (pad ++ '\n' :: rest) ⟨.newline, ['\n'], '|' :: pad ++ ['\n']⟩ rest
  /-- A cell. If it is empty, another pipe follows. -/
  | cell {pad body rest : List Char} (hpad : ∀ c ∈ pad, isIndent c = true)
      (hhead : ∀ c ∈ body.head?, isIndent c = false) (hbody : ∀ c ∈ body, c ≠ '|' ∧ c ≠ '\n')
      (hstop : ∀ c ∈ rest.head?, c = '|' ∨ c = '\n')
      (hempty : body = [] → rest.head? = some '|') :
      CellAs (pad ++ (body ++ rest)) ⟨.tableData, Text.trim body, '|' :: pad ++ body⟩ rest

theorem CellAs.raw_append {cs rest : List Char} {x : Lexeme} (h : CellAs cs x rest) :
    x.raw ++ rest = '|' :: cs := by
  cases h <;> simp

/-- The spaces after a pipe end where the cell starts, or at the pipe that ends an empty cell. -/
theorem isIndent_head?_cell {body rest : List Char} (hhead : ∀ c ∈ body.head?, isIndent c = false)
    (hempty : body = [] → rest.head? = some '|') :
    ∀ c ∈ (body ++ rest).head?, isIndent c = false := by
  by_cases hnil : body = []
  · subst hnil
    rw [List.nil_append, hempty rfl]
    rintro _ ⟨⟩
    rfl
  · rwa [List.head?_append_of_ne_nil _ hnil]

/-- Each form is read as the lexeme that it says. -/
theorem CellAs.cell_eq {cs rest : List Char} {x : Lexeme} (h : CellAs cs x rest) :
    Lexeme.cell cs = x := by
  cases h with
  | ending hpad =>
    obtain ⟨htake, hdrop⟩ := takeWhile_append_stop (m := []) hpad nofun
    rw [List.append_nil] at htake hdrop
    simp only [Lexeme.cell, htake, hdrop]
  | newline hpad =>
    have hhead : ∀ c ∈ ('\n' :: rest).head?, isIndent c = false := by
      intro c hc
      rw [← Option.some.inj hc]
      rfl
    obtain ⟨htake, hdrop⟩ := takeWhile_append_stop hpad hhead
    simp only [Lexeme.cell, htake, hdrop]
  | @cell pad body _ hpad hhead hbody hstop hempty =>
    obtain ⟨htake, hdrop⟩ := takeWhile_append_stop hpad (isIndent_head?_cell hhead hempty)
    have htaken : (body ++ rest).takeWhile (fun c => c != '|' && c != '\n') = body := by
      rw [takeWhile_append_of_head? fun c hc => by
        rcases hstop c hc with rfl | rfl <;> rfl]
      exact List.takeWhile_eq_self_iff.2 fun c hc => by simp [hbody c hc]
    unfold Lexeme.cell
    rw [htake, hdrop]
    rcases hbr : body ++ rest with _ | ⟨c, after⟩
    · obtain ⟨rfl, rfl⟩ := List.append_eq_nil_iff.1 hbr
      exact absurd (hempty rfl) nofun
    · have hc : c ≠ '\n' := by
        rintro rfl
        rcases body with _ | ⟨d, body⟩
        · rw [List.nil_append] at hbr
          have := hempty rfl
          rw [hbr] at this
          cases this
        · exact (hbody _ List.mem_cons_self).2 (List.cons.inj hbr).1
      rw [hbr] at htaken
      simp [hc, htaken]

/-- Every text after a pipe has one of the forms. -/
theorem exists_cellAs (cs : List Char) : ∃ rest, CellAs cs (Lexeme.cell cs) rest := by
  suffices h : ∃ x rest, CellAs cs x rest by
    obtain ⟨x, rest, hform⟩ := h
    exact ⟨rest, hform.cell_eq ▸ hform⟩
  have hsplit := List.takeWhile_append_dropWhile (p := isIndent) (l := cs)
  have hpad : ∀ c ∈ cs.takeWhile isIndent, isIndent c = true := fun c hc =>
    List.mem_takeWhile_imp hc
  rcases hrest : cs.dropWhile isIndent with _ | ⟨c, rest⟩
  · rw [hrest, List.append_nil] at hsplit
    rw [← hsplit]
    exact ⟨_, _, .ending hpad⟩
  · rw [hrest] at hsplit
    rw [← hsplit]
    by_cases hc : c = '\n'
    · subst hc
      exact ⟨_, _, .newline hpad⟩
    · set stops : Char → Bool := fun c => c != '|' && c != '\n' with hstops
      have hindent : isIndent c = false :=
        head?_dropWhile_eq_false isIndent cs c (by rw [hrest]; rfl)
      have hstop := head?_dropWhile_eq_false stops (c :: rest)
      have hbody := List.takeWhile_append_dropWhile (p := stops) (l := c :: rest)
      rw [← hbody]
      refine ⟨_, _, .cell hpad (fun d hd => ?_) (fun d hd => ?_) (fun d hd => ?_) fun hnil => ?_⟩
      · obtain rfl : c = d := by
          rw [List.head?_takeWhile, List.head?_cons] at hd
          exact Option.some.inj (Option.filter_eq_some_iff.1 hd).1
        exact hindent
      · simpa [hstops] using List.mem_takeWhile_imp hd
      · simpa [hstops, or_iff_not_imp_left] using hstop d hd
      · rw [hnil, List.nil_append] at hbody
        rw [hbody] at hstop ⊢
        have := hstop c rfl
        simp only [hstops, Bool.and_eq_false_iff, bne_eq_false_iff_eq] at this
        rw [List.head?_cons, this.resolve_right hc]

end Lexeme

end FeatureDoc
