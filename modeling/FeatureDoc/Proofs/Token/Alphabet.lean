import FeatureDoc.Proofs.Token.Indent

/-!
# The literals that a kind allows

The literal of a token is a part of the text, and its kind says what cannot stand in it: no bracket
and no line end in a reference, no quote in a string, no pipe in a cell, no digit in free text. Most
of these exclusions come from where a lexeme stops, some from what the rules before its own have
taken already.

* `Kind.keyword?` is the word of a keyword, `Kind.ofKeyword?_eq_some_iff` says that no other word
  is read as one.
* `Kind.Allows k cs` says that `cs` can be the literal of a token of kind `k`.
* `Lexeme.inAlphabet_read` says that every lexeme has a literal that its kind allows, also one that
  lacks its end. `literal_of_mem_tokens` says so of the tokens of a text.
* `exists_mem_tokens_iff` says that no kind allows more than it has to.
-/

namespace FeatureDoc

/-! ## What a literal may be -/

theorem Kind.mem_all (k : Kind) : k ∈ Kind.all := by
  cases k with
  | step k => cases k <;> decide
  | _ => decide

/-- The word of a keyword. -/
def Kind.keyword? : Kind → Option String
  | .feature => some "Feature"
  | .scenario => some "Scenario"
  | .outline => some "Outline"
  | .examples => some "Examples"
  | .background => some "Background"
  | .step k => some k.text
  | _ => none

/-- A word is read as a keyword if and only if it is the word of that keyword. -/
theorem Kind.ofKeyword?_eq_some_iff {word : String} {k : Kind} :
    Kind.ofKeyword? word = some k ↔ k.keyword? = some word := by
  constructor
  · intro h
    unfold ofKeyword? at h
    split_ifs at h with h₁ h₂ h₃ h₄ h₅
    · rw [h₁, ← Option.some.inj h, keyword?]
    · rw [h₂, ← Option.some.inj h, keyword?]
    · rw [h₃, ← Option.some.inj h, keyword?]
    · rw [h₄, ← Option.some.inj h, keyword?]
    · rw [h₅, ← Option.some.inj h, keyword?]
    · obtain ⟨step, hstep, rfl⟩ := Option.map_eq_some_iff.1 h
      simpa [keyword?] using List.find?_some hstep
  · intro h
    have hall : ∀ k ∈ Kind.all, ∀ word ∈ k.keyword?, Kind.ofKeyword? word = some k := by decide
    exact hall k k.mem_all word h

/-- The characters that always start a lexeme with a rule of its own. -/
def Lexeme.openers : List Char := ['\n', '"', '|', '#', ':', '@']

/-- A text that a piece of free text can have. -/
structure IsBodyText (cs : List Char) : Prop where
  /-- Free text is trimmed. -/
  trims : Text.Trims cs cs
  /-- No character of it is one that always starts another lexeme. -/
  outside : ∀ c ∈ cs, c ∉ Lexeme.openers ∧ c.isDigit = false
  /-- Only its first character may be any other one. -/
  tail : ∀ c ∈ cs.tail, Text.isLetter c = true ∨ c = ' ' ∨ c = '_' ∨ c = '-'

/-- The literals that tokens of a kind can have. -/
def Kind.Allows : Kind → List Char → Prop
  | .eof, cs => cs = []
  | .comment, cs => Text.Trims cs cs ∧ '\n' ∉ cs
  | .colon, cs => cs = [':']
  | .newline, cs => cs = ['\n']
  | .tag, cs => ∀ c ∈ cs, Text.isTagChar c = true
  | .exampleValue, cs => '>' ∉ cs ∧ '\n' ∉ cs
  | .string, cs => '"' ∉ cs
  | .docString, cs => Text.Trims cs cs ∧ ¬ ['"', '"', '"'] <:+: cs
  | .tableData, cs => Text.Trims cs cs ∧ '|' ∉ cs ∧ '\n' ∉ cs
  | .number, cs => cs ≠ [] ∧ ∀ c ∈ cs, c.isDigit = true
  | .stepBody, cs => IsBodyText cs
  | k, cs => k.keyword? = some (String.ofList cs)

theorem Kind.allows_of_keyword? {k : Kind} {cs : List Char}
    (h : k.keyword? = some (String.ofList cs)) : k.Allows cs := by
  cases k with
  | feature | scenario | outline | examples | background | step => exact h
  | _ => cases h

/-! ## Characters of free text -/

theorem isBodyChar_iff {c : Char} :
    isBodyChar c = true ↔ Text.isLetter c = true ∨ c = ' ' ∨ c = '_' ∨ c = '-' := by
  simp [isBodyChar, or_assoc]

theorem isBodyChar_of_isDigit {c : Char} (h : c.isDigit = true) : isBodyChar c = false := by
  have hdigits : ∀ n ∈ List.range' 48 10, isBodyChar (Char.ofNat n) = false := by decide +kernel
  obtain ⟨hle, hlt⟩ : 48 ≤ c.toNat ∧ c.toNat ≤ 57 := Char.isDigit_iff_toNat.1 h
  rw [← Char.ofNat_toNat c]
  exact hdigits _ (List.mem_range'_1.2 ⟨hle, by omega⟩)

theorem outside_of_isBodyChar {c : Char} (h : isBodyChar c = true) :
    c ∉ Lexeme.openers ∧ c.isDigit = false := by
  have hopeners : ∀ d ∈ Lexeme.openers, (!isBodyChar d) = true :=
    List.all_eq_true.1 (by decide +kernel)
  refine ⟨fun hmem => ?_, Bool.eq_false_iff.2 fun hdigit => ?_⟩
  · simpa [h] using hopeners c hmem
  · rw [isBodyChar_of_isDigit hdigit] at h
    cases h

/-! ## Lexemes -/

namespace Lexeme

/-- The literal of a lexeme is a part of it that its kind allows. -/
structure InAlphabet (x : Lexeme) : Prop where
  /-- The literal is found in the lexeme. -/
  isInfix : x.literal <:+: x.raw
  /-- The kind allows the literal. -/
  allows : x.kind.Allows x.literal

theorem inAlphabet_comment (cs : List Char) : (comment cs).InAlphabet := by
  refine ⟨(Text.trim_isInfix _).trans (List.suffix_cons _ _).isInfix,
    (Text.trims_trim _).trimmed, fun hmem => ?_⟩
  simpa using List.mem_takeWhile_imp (Text.mem_of_mem_trim hmem)

theorem inAlphabet_exampleValue {cs : List Char} (h : closesOnLine cs = true) :
    (exampleValue cs).InAlphabet := by
  obtain ⟨name, rest, rfl, hname, hline⟩ := closesOnLine_cases h
  rw [exampleValue_append_bracket hname]
  exact ⟨⟨['<'], ['>'], rfl⟩, hname, hline⟩

/-- There are no three quotes in a row before the first three. -/
theorem not_isInfix_beforeTripleQuote (cs : List Char) :
    ¬ ['"', '"', '"'] <:+: beforeTripleQuote cs := by
  fun_induction beforeTripleQuote cs with
  | case1 => simp
  | case2 c cs hquotes ih =>
    rw [List.infix_cons_iff]
    rintro (hfront | hlater)
    · -- what is kept is a front part of the text, so the text itself goes on with the quotes
      obtain ⟨hc, hmore⟩ := List.cons_prefix_cons.1 hfront
      obtain ⟨rest, hrest⟩ := hmore.trans (beforeTripleQuote_isPrefix cs)
      exact hquotes rest hc.symm hrest.symm
    · exact ih hlater
  | case3 => simp

theorem allows_docString {body : List Char} (h : ¬ ['"', '"', '"'] <:+: body) :
    Kind.docString.Allows (Text.trim body) :=
  ⟨(Text.trims_trim body).trimmed, fun hquotes => h (hquotes.trans (Text.trim_isInfix body))⟩

theorem QuotedAs.inAlphabet {cs rest : List Char} {x : Lexeme} (h : QuotedAs cs x rest) :
    x.InAlphabet := by
  cases h with
  | empty => exact ⟨⟨[], _, rfl⟩, List.not_mem_nil⟩
  | string hne h => exact ⟨⟨['"'], ['"'], rfl⟩, h⟩
  | openString h => exact ⟨(List.suffix_cons _ _).isInfix, h⟩
  | @block body _ h =>
    have hquotes := not_isInfix_beforeTripleQuote (body ++ '"' :: '"' :: '"' :: rest)
    rw [h] at hquotes
    exact ⟨(Text.trim_isInfix body).trans ⟨['"', '"', '"'], ['"', '"', '"'], rfl⟩,
      allows_docString hquotes⟩
  | @openBlock body h =>
    have hquotes := not_isInfix_beforeTripleQuote body
    rw [h] at hquotes
    exact ⟨(Text.trim_isInfix body).trans ⟨['"', '"', '"'], [], List.append_nil _⟩,
      allows_docString hquotes⟩

theorem CellAs.inAlphabet {cs rest : List Char} {x : Lexeme} (h : CellAs cs x rest) :
    x.InAlphabet := by
  cases h with
  | ending => exact ⟨⟨[], _, rfl⟩, rfl⟩
  | newline => exact ⟨(List.suffix_append _ _).isInfix, rfl⟩
  | @cell pad body _ hpad hhead hbody hstop hempty =>
    exact ⟨(Text.trim_isInfix body).trans (List.suffix_append _ _).isInfix,
      (Text.trims_trim body).trimmed,
      fun hmem => (hbody _ (Text.mem_of_mem_trim hmem)).1 rfl,
      fun hmem => (hbody _ (Text.mem_of_mem_trim hmem)).2 rfl⟩

theorem inAlphabet_number {c : Char} (h : c.isDigit = true) (cs : List Char) :
    (number (c :: cs)).InAlphabet :=
  ⟨List.infix_rfl, by simp [number, h], fun _ hd => List.mem_takeWhile_imp hd⟩

/-- If a space at the front is trimmed off, the next character is one that may stand anywhere. -/
theorem isBodyText_trim {c : Char} {cs : List Char} (hc : c ∉ openers ∧ c.isDigit = false)
    (hcs : ∀ d ∈ cs, isBodyChar d = true) : IsBodyText (Text.trim (c :: cs)) where
  trims := (Text.trims_trim _).trimmed
  outside := by
    intro d hd
    rcases List.mem_cons.1 (Text.mem_of_mem_trim hd) with rfl | hd
    · exact hc
    · exact outside_of_isBodyChar (hcs d hd)
  tail := by
    intro d hd
    have htail : (Text.trim (c :: cs)).tail.Sublist cs := (Text.trim_isInfix _).sublist.tail
    exact isBodyChar_iff.1 (hcs d (htail.subset hd))

theorem inAlphabet_word {c : Char} (hc : c ∉ openers ∧ c.isDigit = false) (cs : List Char) :
    (word c cs).InAlphabet := by
  dsimp only [word]
  split
  · next k hk =>
    exact ⟨List.infix_rfl, Kind.allows_of_keyword? (Kind.ofKeyword?_eq_some_iff.1 hk)⟩
  · exact ⟨Text.trim_isInfix _, isBodyText_trim hc fun d hd => List.mem_takeWhile_imp hd⟩

/-- **Every lexeme has a literal that its kind allows.** -/
theorem inAlphabet_read (cs : List Char) : (read cs).InAlphabet := by
  rcases cs with _ | ⟨c, cs⟩
  · exact ⟨List.infix_rfl, rfl⟩
  rw [read_cons]
  split
  · exact inAlphabet_comment cs
  split
  · exact ⟨List.infix_rfl, rfl⟩
  split
  · exact ⟨List.infix_rfl, rfl⟩
  split
  · exact ⟨(List.suffix_cons _ _).isInfix, fun c hc => List.mem_takeWhile_imp hc⟩
  split
  · obtain ⟨rest, hform⟩ := exists_quotedAs cs
    exact hform.inAlphabet
  split
  · obtain ⟨rest, hform⟩ := exists_cellAs cs
    exact hform.inAlphabet
  split
  · next hbracket =>
    split
    · next hclosed => exact inAlphabet_exampleValue hclosed
    · exact inAlphabet_word (hbracket ▸ by decide) cs
  split
  · next hdigit => exact inAlphabet_number hdigit cs
  · next hsign hcolon hnewline hat hquote hpipe _ hdigit =>
    -- the rules before this one have taken every opener
    refine inAlphabet_word ⟨?_, Bool.eq_false_iff.2 hdigit⟩ cs
    simp [openers, hsign, hcolon, hnewline, hat, hquote, hpipe]

end Lexeme

/-! ## Tokens -/

/-- From any place on, the literals are parts of what is left of the text. -/
theorem Cursor.allows_of_mem_tokens {c : Cursor} {t : Token} (h : t ∈ c.tokens) :
    t.literal.toList <:+: c.rest ∧ t.kind.Allows t.literal.toList := by
  obtain ⟨text, htext, hkind, hliteral⟩ := exists_read_of_mem_tokens h
  obtain ⟨hpart, hallows⟩ := Lexeme.inAlphabet_read text
  rw [hkind, hliteral]
  exact ⟨hpart.trans ((Lexeme.raw_isPrefix text).isInfix.trans htext.isInfix), hallows⟩

/-- **Every literal is a part of the text that its kind allows.** -/
theorem literal_of_mem_tokens {source : String} {t : Token} (h : t ∈ tokens source) :
    t.literal.toList <:+: source.toList ∧ t.kind.Allows t.literal.toList :=
  Cursor.allows_of_mem_tokens h

/-- A block that lacks its end, with two quotes in a row and a line end at its end. -/
theorem literal_of_mem_tokens_open_block :
    (⟨.docString, "a\"\" b", 1⟩ : Token) ∈ tokens "\"\"\" a\"\" b\n" ∧
      "a\"\" b".toList <:+: "\"\"\" a\"\" b\n".toList ∧
      Text.Trims "a\"\" b".toList "a\"\" b".toList ∧
      ¬ ['"', '"', '"'] <:+: "a\"\" b".toList := by
  have hmem : (⟨.docString, "a\"\" b", 1⟩ : Token) ∈ tokens "\"\"\" a\"\" b\n" := by
    decide +kernel
  obtain ⟨hpart, hallows⟩ := literal_of_mem_tokens hmem
  exact ⟨hmem, hpart, hallows⟩

/-! ## No kind allows too much -/

theorem Kind.exists_isLetter_of_keyword? {k : Kind} {word : String} (h : k.keyword? = some word) :
    ∃ c, word.toList.head? = some c ∧ Text.isLetter c = true := by
  have hall : ∀ k ∈ Kind.all, ∀ word ∈ k.keyword?,
      word.toList.head?.any Text.isLetter = true := by decide +kernel
  exact (Option.any_eq_true _ _).1 (hall k k.mem_all word h)

namespace Lexeme

/-- A keyword that stands alone is read as such. -/
theorem read_keyword {k : Kind} {word : String} (h : k.keyword? = some word) :
    read word.toList = ⟨k, word.toList, word.toList⟩ := by
  have hall : ∀ k ∈ Kind.all, ∀ word ∈ k.keyword?,
      read word.toList = ⟨k, word.toList, word.toList⟩ := by decide +kernel
  exact hall k k.mem_all word h

section Word

variable {c : Char} {cs : List Char}

/-- The rules for the characters that may start a number, a reference or a word. -/
theorem read_of_notMem_openers (hc : c ∉ openers) (cs : List Char) : read (c :: cs) =
    if c = '<' then if closesOnLine cs then exampleValue cs else word c cs
    else if c.isDigit then number (c :: cs) else word c cs := by
  simp only [openers, List.mem_cons, not_or] at hc
  obtain ⟨hnewline, hquote, hpipe, hsign, hcolon, hat, -⟩ := hc
  rw [read_cons, if_neg hsign, if_neg hcolon, if_neg hnewline, if_neg hat, if_neg hquote,
    if_neg hpipe]

theorem read_number (hc : c.isDigit = true) (cs : List Char) :
    read (c :: cs) = number (c :: cs) := by
  have hdigit : ∀ d ∈ '<' :: openers, (!d.isDigit) = true := List.all_eq_true.1 (by decide)
  have hne : c ∉ '<' :: openers := fun hmem => by simpa [hc] using hdigit c hmem
  rw [List.mem_cons, not_or] at hne
  rw [read_of_notMem_openers hne.2, if_neg hne.1, if_pos hc]

/-- No keyword starts with a character that is no letter, and no bracket is closed by free text. -/
theorem read_stepBody (hc : c ∉ openers ∧ c.isDigit = false) (hletter : Text.isLetter c = false)
    (hcs : ∀ d ∈ cs, isBodyChar d = true) :
    read (c :: cs) = ⟨.stepBody, Text.trim (c :: cs), c :: cs⟩ := by
  have hopen : closesOnLine cs = false := by
    refine Bool.eq_false_iff.2 fun hclosed => ?_
    obtain ⟨name, rest, rfl, -⟩ := closesOnLine_cases hclosed
    exact absurd (hcs '>' (by simp)) (by decide +kernel)
  have hread : read (c :: cs) = word c cs := by
    rw [read_of_notMem_openers hc.1, hopen, hc.2]
    simp
  have hnone : Kind.ofKeyword? (String.ofList (c :: cs.takeWhile Text.isLetter)) = none := by
    refine Option.eq_none_iff_forall_ne_some.2 fun k hk => ?_
    obtain ⟨d, hd, hfirst⟩ := Kind.exists_isLetter_of_keyword? (Kind.ofKeyword?_eq_some_iff.1 hk)
    rw [String.toList_ofList] at hd
    obtain rfl : c = d := Option.some.inj hd
    rw [hletter] at hfirst
    cases hfirst
  simp only [hread, word, hnone, List.takeWhile_eq_self_iff.2 hcs]

/-- Free text is read where it stands alone, or after a wide space, which keeps it from being read
as a keyword. -/
theorem exists_read_of_isBodyText (h : IsBodyText cs) : ∃ c m, isIndent c = false ∧
    (read (c :: m)).kind = .stepBody ∧ (read (c :: m)).literal = cs := by
  by_cases hbody : ∀ c ∈ cs, isBodyChar c = true
  · have hread := read_stepBody (c := '\u00a0') (by decide) (by decide +kernel) hbody
    have hspace : Text.IsBlank ['\u00a0'] := List.forall_mem_singleton.2 (by decide)
    have htrim : Text.trim ('\u00a0' :: cs) = cs :=
      (Text.trim_append_left hspace cs).trans h.trims.trim_eq
    exact ⟨'\u00a0', cs, by decide, congrArg kind hread, (congrArg literal hread).trans htrim⟩
  · rcases cs with _ | ⟨c, cs⟩
    · exact absurd (List.forall_mem_nil _) hbody
    · have htail : ∀ d ∈ cs, isBodyChar d = true := fun d hd => isBodyChar_iff.2 (h.tail d hd)
      have hc : ¬ isBodyChar c = true := fun hc => hbody (List.forall_mem_cons.2 ⟨hc, htail⟩)
      have hletter : Text.isLetter c = false :=
        Bool.eq_false_iff.2 fun hletter => hc (isBodyChar_iff.2 (Or.inl hletter))
      have hread := read_stepBody (h.outside c List.mem_cons_self) hletter htail
      exact ⟨c, cs, isIndent_of_isSpace (h.trims.head c rfl), congrArg kind hread,
        (congrArg literal hread).trans h.trims.trim_eq⟩

end Word

end Lexeme

/-- Every literal that a kind allows is read somewhere: between its delimiters, or alone. -/
theorem Kind.Allows.exists_read {k : Kind} {cs : List Char} (h : k.Allows cs) :
    ∃ c m, isIndent c = false ∧ (Lexeme.read (c :: m)).kind = k ∧
      (Lexeme.read (c :: m)).literal = cs := by
  have hkeyword (h : k.keyword? = some (String.ofList cs)) : ∃ c m, isIndent c = false ∧
      (Lexeme.read (c :: m)).kind = k ∧ (Lexeme.read (c :: m)).literal = cs := by
    have hread := Lexeme.read_keyword h
    obtain ⟨c, hc, hletter⟩ := Kind.exists_isLetter_of_keyword? h
    rw [String.toList_ofList] at hread hc
    obtain ⟨m, rfl⟩ := List.head?_eq_some_iff.1 hc
    refine ⟨c, m, Bool.eq_false_iff.2 fun hindent => ?_, congrArg _ hread, congrArg _ hread⟩
    rw [isLetter_of_isIndent hindent] at hletter
    cases hletter
  cases k with
  | eof =>
    obtain rfl : cs = [] := h
    exact ⟨'|', [], rfl, rfl, rfl⟩
  | comment =>
    have hline : cs.takeWhile (· != '\n') = cs :=
      List.takeWhile_eq_self_iff.2 fun c hc => bne_iff_ne.2 fun heq => h.2 (heq ▸ hc)
    exact ⟨'#', cs, rfl, rfl, (congrArg Text.trim hline).trans h.1.trim_eq⟩
  | colon =>
    obtain rfl : cs = [':'] := h
    exact ⟨':', [], rfl, rfl, rfl⟩
  | newline =>
    obtain rfl : cs = ['\n'] := h
    exact ⟨'\n', [], rfl, rfl, rfl⟩
  | tag => exact ⟨'@', cs, rfl, rfl, List.takeWhile_eq_self_iff.2 h⟩
  | exampleValue =>
    have hclosed : Lexeme.closesOnLine (cs ++ ['>']) = true := by
      rw [Lexeme.closesOnLine_append, if_neg h.2]
      simp [Lexeme.closesOnLine]
    have hread : Lexeme.read ('<' :: (cs ++ ['>'])) = _ :=
      (if_pos hclosed).trans (Lexeme.exampleValue_append_bracket h.1 [])
    exact ⟨'<', cs ++ ['>'], rfl, congrArg _ hread, congrArg _ hread⟩
  | string =>
    have hread : Lexeme.read ('"' :: cs) = _ := (Lexeme.QuotedAs.openString h).quoted_eq
    exact ⟨'"', cs, rfl, congrArg _ hread, congrArg _ hread⟩
  | docString =>
    have hbody : Lexeme.beforeTripleQuote cs = cs := by
      refine (Lexeme.beforeTripleQuote_cases cs).resolve_right ?_
      rintro ⟨rest, hquotes⟩
      exact h.2 ⟨_, rest, (List.append_assoc _ _ rest).trans hquotes.symm⟩
    have hread : Lexeme.read ('"' :: '"' :: '"' :: cs) = _ :=
      (Lexeme.QuotedAs.openBlock hbody).quoted_eq
    exact ⟨'"', '"' :: '"' :: cs, rfl, congrArg _ hread, (congrArg _ hread).trans h.1.trim_eq⟩
  | tableData =>
    have hform : Lexeme.CellAs ([] ++ (cs ++ ['|'])) _ ['|'] :=
      .cell (List.forall_mem_nil _) (fun c hc => isIndent_of_isSpace (h.1.head c hc))
        (fun c hc => ⟨fun heq => h.2.1 (heq ▸ hc), fun heq => h.2.2 (heq ▸ hc)⟩)
        (by simp) fun _ => rfl
    have hread : Lexeme.read ('|' :: (cs ++ ['|'])) = _ := hform.cell_eq
    exact ⟨'|', cs ++ ['|'], rfl, congrArg _ hread, (congrArg _ hread).trans h.1.trim_eq⟩
  | number =>
    obtain ⟨c, cs, rfl⟩ := List.exists_cons_of_ne_nil h.1
    have hc := h.2 c List.mem_cons_self
    have hread := Lexeme.read_number hc cs
    refine ⟨c, cs, Bool.eq_false_iff.2 fun hindent => ?_, congrArg _ hread,
      (congrArg _ hread).trans (List.takeWhile_eq_self_iff.2 h.2)⟩
    rw [isDigit_of_isIndent hindent] at hc
    cases hc
  | stepBody => exact Lexeme.exists_read_of_isBodyText h
  | _ => exact hkeyword h

/-- **What a kind allows is exact**: the literals that its tokens have, over all texts. -/
theorem exists_mem_tokens_iff {k : Kind} {literal : String} :
    (∃ source, ∃ t ∈ tokens source, t.kind = k ∧ t.literal = literal) ↔
      k.Allows literal.toList := by
  constructor
  · rintro ⟨source, t, ht, rfl, rfl⟩
    exact (Cursor.allows_of_mem_tokens ht).2
  · intro h
    obtain ⟨c, cs, hc, hkind, hliteral⟩ := h.exists_read
    have htext : (c :: cs).dropWhile isIndent = c :: cs :=
      List.dropWhile_cons_of_neg (by simp [hc])
    refine ⟨String.ofList (c :: cs), (Cursor.ofString (String.ofList (c :: cs))).next.1,
      List.mem_of_head? (Cursor.head?_tokens _), ?_, ?_⟩
    · rw [Cursor.next_eq, Cursor.lexeme, Cursor.ofString, String.toList_ofList, htext, hkind]
    · rw [Cursor.next_eq, Cursor.lexeme, Cursor.ofString, String.toList_ofList, htext, hliteral,
        String.ofList_toList]

/-- A keyword can be the literal of free text. -/
example : tokens "\u00a0Feature" = [⟨.stepBody, "Feature", 1⟩, ⟨.eof, "", 1⟩] := by
  decide +kernel

end FeatureDoc
