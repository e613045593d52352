import FeatureDoc.Document
import FeatureDoc.Proofs.Token.Indent

/-!
# Line ends of two characters

Some systems put a carriage return in front of every line feed. Inside a line it is a space, so it
is skipped in front of the line feed, trimmed off what comes before it, or passed over between a
pipe and the end of its line. Only a string or a block that runs over several lines keeps it.

* `Text.crlf` puts a carriage return in front of every line feed, `Token.crlf` does so in the
  literals of strings and blocks.
* `Lexeme.QuotedAs.crlf` says that strings and blocks keep their form.
* `Cursor.stepsAlike` is one step of a scan, `tokens_withCrlf` the whole of it, for a text and for
  the document that it holds.
-/

namespace FeatureDoc

namespace Text

/-- A carriage return in front of every line feed. -/
def crlf (cs : List Char) : List Char :=
  cs.flatMap fun c => if c = '\n' then ['\r', '\n'] else [c]

@[simp] theorem crlf_nil : crlf [] = [] := rfl

@[simp] theorem crlf_newline (cs : List Char) : crlf ('\n' :: cs) = '\r' :: '\n' :: crlf cs := rfl

theorem crlf_cons {c : Char} (h : c ≠ '\n') (cs : List Char) : crlf (c :: cs) = c :: crlf cs := by
  rw [crlf, List.flatMap_cons, if_neg h, List.singleton_append, crlf]

@[simp] theorem crlf_append (cs cs' : List Char) : crlf (cs ++ cs') = crlf cs ++ crlf cs' :=
  List.flatMap_append

/-- A text on one line stays as it is. -/
theorem crlf_eq_self {cs : List Char} (h : '\n' ∉ cs) : crlf cs = cs := by
  induction cs with
  | nil => rfl
  | cons c cs ih =>
    rw [List.mem_cons, not_or] at h
    rw [crlf_cons (Ne.symm h.1), ih h.2]

theorem crlf_ne_nil {cs : List Char} (h : cs ≠ []) : crlf cs ≠ [] := by
  rcases cs with _ | ⟨c, cs⟩
  · exact absurd rfl h
  · by_cases hc : c = '\n'
    · simp [hc]
    · simp [crlf_cons hc]

/-- No character is added but carriage returns. -/
theorem mem_crlf {c : Char} (hc : c ≠ '\r') {cs : List Char} : c ∈ crlf cs ↔ c ∈ cs := by
  induction cs with
  | nil => rfl
  | cons d cs ih =>
    by_cases hd : d = '\n'
    · simp [hd, ih, hc]
    · simp [crlf_cons hd, ih]

/-- A text that starts with another character than a carriage return started with it before. -/
theorem eq_cons_of_crlf_eq_cons {c : Char} (hc : c ≠ '\r') {cs m : List Char}
    (h : crlf cs = c :: m) : ∃ cs', cs = c :: cs' ∧ m = crlf cs' := by
  rcases cs with _ | ⟨d, cs⟩
  · cases h
  · by_cases hd : d = '\n'
    · rw [hd, crlf_newline, List.cons.injEq] at h
      exact absurd h.1.symm hc
    · rw [crlf_cons hd, List.cons.injEq] at h
      exact ⟨cs, by rw [h.1], h.2.symm⟩

/-- There are as many lines as before. -/
theorem count_newline_crlf (cs : List Char) : (crlf cs).count '\n' = cs.count '\n' := by
  induction cs with
  | nil => rfl
  | cons c cs ih =>
    by_cases hc : c = '\n'
    · simp [hc, ih]
    · rw [crlf_cons hc, List.count_cons, List.count_cons, ih]

theorem trim_crlf (cs : List Char) : trim (crlf cs) = crlf (trim cs) := by
  have hchar : ∀ c, isSpace c = false → (if c = '\n' then ['\r', '\n'] else [c]) = [c] := by
    intro c hc
    refine if_neg ?_
    rintro rfl
    cases hc
  refine trim_flatMap (fun c hc d hd => ?_) (fun c hc => ?_) (fun c hc => ?_) cs
  · split at hd
    · rcases List.mem_pair.1 hd with rfl | rfl <;> rfl
    · exact List.mem_singleton.1 hd ▸ hc
  · rw [hchar c hc]
    exact ⟨c, rfl, hc⟩
  · rw [hchar c hc]
    exact ⟨c, rfl, hc⟩

/-- `crlf` on strings. -/
def withCrlf (s : String) : String := String.ofList (crlf s.toList)

end Text

/-- The token as a text with the longer line ends has it. -/
def Token.crlf (t : Token) : Token :=
  if t.kind = .string ∨ t.kind = .docString then { t with literal := Text.withCrlf t.literal }
  else t

theorem Token.crlf_of_ne {t : Token} (h : t.kind ≠ .string ∧ t.kind ≠ .docString) : t.crlf = t :=
  if_neg (not_or.2 h)

theorem Token.kind_crlf (t : Token) : t.crlf.kind = t.kind := by
  unfold crlf
  split <;> rfl

/-- A literal on one line stays as it is. -/
theorem Token.crlf_eq_self {t : Token}
    (h : t.kind = .string ∨ t.kind = .docString → '\n' ∉ t.literal.toList) : t.crlf = t := by
  by_cases hk : t.kind = .string ∨ t.kind = .docString
  · rw [crlf, if_pos hk, Text.withCrlf, Text.crlf_eq_self (h hk), String.ofList_toList]
  · exact if_neg hk

/-! ## Lexemes -/

namespace Lexeme

open Text (crlf crlf_cons)

theorem closesOnLine_crlf (cs : List Char) : closesOnLine (crlf cs) = closesOnLine cs := by
  induction cs with
  | nil => rfl
  | cons c cs ih =>
    by_cases hc : c = '\n'
    · subst hc
      rfl
    · have hstep : ∀ m, closesOnLine (c :: m) = ([c].contains '>' || closesOnLine m) := fun m =>
        (closesOnLine_append [c] m).trans (if_neg (by simpa using Ne.symm hc))
      rw [crlf_cons hc, hstep, hstep, ih]

theorem beforeTripleQuote_crlf (cs : List Char) :
    beforeTripleQuote (crlf cs) = crlf (beforeTripleQuote cs) := by
  fun_induction beforeTripleQuote cs with
  | case1 cs => rfl
  | case2 c cs hquotes ih =>
    by_cases hc : c = '\n'
    · subst hc
      rw [Text.crlf_newline, Text.crlf_newline, beforeTripleQuote, beforeTripleQuote, ih]
      · rintro _ ⟨⟩
      · rintro _ ⟨⟩
    · rw [crlf_cons hc, crlf_cons hc, beforeTripleQuote, ih]
      rintro m rfl hm
      obtain ⟨cs', rfl, hm'⟩ := Text.eq_cons_of_crlf_eq_cons (by decide) hm
      obtain ⟨cs'', rfl, -⟩ := Text.eq_cons_of_crlf_eq_cons (by decide) hm'.symm
      exact hquotes cs'' rfl rfl
  | case3 => rfl

/-- The lexeme of a string or a block with the longer line ends. -/
def withCrlf (x : Lexeme) : Lexeme := ⟨x.kind, crlf x.literal, crlf x.raw⟩

/-- **A string or a block keeps its form.** -/
theorem QuotedAs.crlf {cs rest : List Char} {x : Lexeme} (h : QuotedAs cs x rest) :
    QuotedAs (Text.crlf cs) x.withCrlf (Text.crlf rest) := by
  have hquote : ('"' : Char) ≠ '\n' := by decide
  cases h with
  | empty h =>
    refine QuotedAs.empty fun hhead => h ?_
    obtain ⟨m, hm⟩ := List.head?_eq_some_iff.1 hhead
    obtain ⟨cs', rfl, -⟩ := Text.eq_cons_of_crlf_eq_cons (by decide) hm
    rfl
  | @string body _ hne h =>
    have hform : QuotedAs (Text.crlf body ++ '"' :: Text.crlf rest) _ _ :=
      .string (Text.crlf_ne_nil hne) ((Text.mem_crlf (by decide)).not.2 h)
    simpa [withCrlf, crlf_cons hquote] using hform
  | openString h =>
    have hform := QuotedAs.openString ((Text.mem_crlf (by decide)).not.2 h)
    simpa [withCrlf, crlf_cons hquote] using hform
  | @block body _ h =>
    have hbody := beforeTripleQuote_crlf (body ++ '"' :: '"' :: '"' :: rest)
    rw [h] at hbody
    have hform : QuotedAs
        ('"' :: '"' :: (Text.crlf body ++ '"' :: '"' :: '"' :: Text.crlf rest)) _ _ :=
      .block (by simpa [crlf_cons hquote] using hbody)
    simpa [withCrlf, crlf_cons hquote, Text.trim_crlf] using hform
  | @openBlock body h =>
    have hform : QuotedAs ('"' :: '"' :: Text.crlf body) _ _ :=
      .openBlock (by rw [beforeTripleQuote_crlf, h])
    simpa [withCrlf, crlf_cons hquote, Text.trim_crlf] using hform

theorem QuotedAs.kind {cs rest : List Char} {x : Lexeme} (h : QuotedAs cs x rest) :
    x.kind = .string ∨ x.kind = .docString := by
  cases h <;> simp

/-- A lexeme that is no string and lies on one line. -/
structure OnLine (x : Lexeme) : Prop where
  /-- There is no line end in it. -/
  newline : '\n' ∉ x.raw
  /-- It is no string and no block. -/
  kind : x.kind ≠ .string ∧ x.kind ≠ .docString

theorem onLine_word {c : Char} (hc : c ≠ '\n') (cs : List Char) : (word c cs).OnLine := by
  have hletter : '\n' ∉ c :: cs.takeWhile Text.isLetter := by
    refine List.not_mem_cons_of_ne_of_not_mem (Ne.symm hc) fun hmem => ?_
    exact absurd (List.mem_takeWhile_imp hmem) (by decide +kernel)
  have hbody : '\n' ∉ c :: cs.takeWhile isBodyChar := by
    refine List.not_mem_cons_of_ne_of_not_mem (Ne.symm hc) fun hmem => ?_
    exact absurd (List.mem_takeWhile_imp hmem) (by decide +kernel)
  refine ⟨?_, kind_word_ne (by decide) (by decide) c cs,
    kind_word_ne (by decide) (by decide) c cs⟩
  dsimp only [word]
  split
  · exact hletter
  · exact hbody

/-- Only line ends, strings and the pipe that ends a line go past the end of a line. -/
theorem onLine_read {c : Char} (hnewline : c ≠ '\n') (hquote : c ≠ '"') (hpipe : c ≠ '|')
    (cs : List Char) : (read (c :: cs)).OnLine := by
  rw [read_cons, if_neg hnewline, if_neg hquote, if_neg hpipe]
  split
  · refine ⟨List.not_mem_cons_of_ne_of_not_mem (by decide) fun h => ?_, nofun, nofun⟩
    exact absurd (List.mem_takeWhile_imp h) (by decide)
  split
  · exact ⟨by decide, nofun, nofun⟩
  split
  · refine ⟨List.not_mem_cons_of_ne_of_not_mem (by decide) fun h => ?_, nofun, nofun⟩
    exact absurd (List.mem_takeWhile_imp h) (by decide +kernel)
  split
  · split
    · next hclosed =>
      obtain ⟨name, rest, rfl, hname, hline⟩ := closesOnLine_cases hclosed
      rw [exampleValue_append_bracket hname]
      exact ⟨List.not_mem_cons_of_ne_of_not_mem (by decide) (by simp [hline]), nofun, nofun⟩
    · exact onLine_word hnewline cs
  split
  · exact ⟨fun h => absurd (List.mem_takeWhile_imp h) (by decide), nofun, nofun⟩
  · exact onLine_word hnewline cs

/-- What stands after a pipe lies on one line, the end of that line apart. -/
theorem CellAs.onLine {cs rest : List Char} {x : Lexeme} (h : CellAs cs x rest)
    (hkind : x.kind ≠ .newline) : x.OnLine := by
  cases h with
  | ending hpad =>
    refine ⟨List.not_mem_cons_of_ne_of_not_mem (by decide) fun hmem => ?_, by simp⟩
    exact absurd (hpad _ hmem) (by decide)
  | newline hpad => exact absurd rfl hkind
  | cell hpad hhead hbody hstop hempty =>
    refine ⟨List.not_mem_cons_of_ne_of_not_mem (by decide) fun hmem => ?_, by simp⟩
    rcases List.mem_append.1 hmem with hmem | hmem
    · exact absurd (hpad _ hmem) (by decide)
    · exact (hbody _ hmem).2 rfl

end Lexeme

/-! ## Tokens -/

namespace Cursor

/-- The token at a place is the lexeme that is read there, whatever else is known of it. -/
theorem next_of_read {c : Cursor} {x : Lexeme} {m : List Char}
    (hread : Lexeme.read (c.rest.dropWhile isIndent) = x)
    (hsplit : x.raw ++ m = c.rest.dropWhile isIndent) :
    c.next = (⟨x.kind, String.ofList x.literal, c.line⟩, ⟨m, c.line + x.raw.count '\n'⟩) := by
  have hdrop : (c.rest.dropWhile isIndent).drop x.raw.length = m := by
    rw [← hsplit, List.drop_left]
  subst hread
  rw [next_eq, lexeme, hdrop]

/-- A step over the longer line ends gives the same token, on the same line. What is left is the
same, too, once the next indentation is skipped. -/
def StepsAlike (c : Cursor) : Prop :=
  ∃ m, (⟨Text.crlf c.rest, c.line⟩ : Cursor).next = (c.next.1.crlf, ⟨m, c.next.2.line⟩) ∧
    m.dropWhile isIndent = (Text.crlf c.next.2.rest).dropWhile isIndent

theorem dropWhile_isIndent_crlf (cs : List Char) :
    (Text.crlf cs).dropWhile isIndent = (Text.crlf (cs.dropWhile isIndent)).dropWhile isIndent := by
  have hindent : ∀ c ∈ cs.takeWhile isIndent, isIndent c = true := fun c hc =>
    List.mem_takeWhile_imp hc
  have hline : '\n' ∉ cs.takeWhile isIndent := fun hmem => absurd (hindent _ hmem) (by decide)
  conv_lhs => rw [← List.takeWhile_append_dropWhile (p := isIndent) (l := cs), Text.crlf_append,
    Text.crlf_eq_self hline, List.dropWhile_append_of_pos hindent]

/-- A token that lies on one line stays as it is, and a carriage return after it is skipped. -/
theorem stepsAlike_of_onLine {c : Cursor} (h : c.lexeme.OnLine) : c.StepsAlike := by
  have hconsumed : '\n' ∉ c.consumed := by
    rw [consumed, List.mem_append, not_or]
    exact ⟨fun hmem => absurd (List.mem_takeWhile_imp hmem) (by decide), h.newline⟩
  have htext : Text.crlf c.rest = c.consumed ++ Text.crlf c.next.2.rest := by
    conv_lhs => rw [← c.consumed_append, Text.crlf_append, Text.crlf_eq_self hconsumed]
  rw [StepsAlike, Token.crlf_of_ne (t := c.next.1) h.kind, htext]
  rcases hrest : c.next.2.rest with _ | ⟨d, rest⟩
  · refine ⟨[], ?_, rfl⟩
    have hall := c.consumed_append
    rw [hrest] at hall
    rw [Text.crlf_nil, hall, ← hrest]
  · have hne : c.next.2.rest ≠ [] := hrest ▸ List.cons_ne_nil d rest
    by_cases hd : d = '\n'
    · subst hd
      have hreturn : ∀ x ∈ ['\r'], isIndent x = true := by simp [isIndent]
      have hnext := next_insert (m := '\n' :: Text.crlf rest) hreturn
        (.of_eq (by rw [hrest]; rfl) (by rw [hrest]; rfl)) hne
      refine ⟨_, hnext, ?_⟩
      rw [List.dropWhile_append_of_pos fun x hx =>
        hreturn x ((List.dropWhile_suffix _).subset hx)]
      rfl
    · have hnext := next_insert (w := []) (m := d :: Text.crlf rest) (List.forall_mem_nil _)
        (.of_eq (by rw [hrest]; rfl)
          (by rw [hrest, ← Text.crlf_cons hd, Lexeme.closesOnLine_crlf])) hne
      rw [Text.crlf_cons hd]
      exact ⟨_, hnext, rfl⟩

/-- A lexeme that goes past the end of a line is read in its own way over the longer line ends. -/
theorem stepsAlike_of_read {c : Cursor} {x x' : Lexeme} {text text' rest : List Char}
    (htext : c.rest.dropWhile isIndent = text) (hread : Lexeme.read text = x)
    (hsplit : x.raw ++ rest = text) (htext' : (Text.crlf c.rest).dropWhile isIndent = text')
    (hread' : Lexeme.read text' = x') (hsplit' : x'.raw ++ Text.crlf rest = text')
    (htoken : ∀ line, (⟨x'.kind, String.ofList x'.literal, line⟩ : Token) =
      (⟨x.kind, String.ofList x.literal, line⟩ : Token).crlf)
    (hcount : x'.raw.count '\n' = x.raw.count '\n') : c.StepsAlike := by
  subst htext htext'
  rw [StepsAlike, next_of_read hread hsplit,
    next_of_read (c := ⟨Text.crlf c.rest, c.line⟩) hread' hsplit', htoken, hcount]
  exact ⟨_, rfl, rfl⟩

/-- The carriage return comes to stand between the last pipe of a line and the line feed. -/
theorem stepsAlike_of_pipe {c : Cursor} {cs rest : List Char} {x : Lexeme}
    (htext : c.rest.dropWhile isIndent = '|' :: cs) (hform : Lexeme.CellAs cs x rest)
    (hkind : x.kind = .newline) : c.StepsAlike := by
  have hcell : Lexeme.read ('|' :: cs) = x := hform.cell_eq
  cases hform with
  | ending hpad => cases hkind
  | @newline pad _ hpad =>
    have hpad' : ∀ x ∈ pad ++ ['\r'], isIndent x = true :=
      List.forall_mem_append.2 ⟨hpad, by simp [isIndent]⟩
    have hline : '\n' ∉ pad := fun hmem => absurd (hpad _ hmem) (by decide)
    have hform' : Lexeme.CellAs (pad ++ ['\r'] ++ '\n' :: Text.crlf rest) _ _ := .newline hpad'
    have htext' : (Text.crlf c.rest).dropWhile isIndent =
        '|' :: (pad ++ ['\r'] ++ '\n' :: Text.crlf rest) := by
      rw [dropWhile_isIndent_crlf, htext, Text.crlf_cons (by decide), Text.crlf_append,
        Text.crlf_eq_self hline, Text.crlf_newline, List.append_assoc]
      rfl
    refine stepsAlike_of_read htext hcell (by simp) htext' hform'.cell_eq hform'.raw_append
      (fun _ => rfl) ?_
    simp [List.count_append]
  | cell hpad hhead hbody hstop hempty => cases hkind

/-- **One step of a scan over the longer line ends.** -/
theorem stepsAlike (c : Cursor) : c.StepsAlike := by
  have hcrlf := dropWhile_isIndent_crlf c.rest
  rcases htext : c.rest.dropWhile isIndent with _ | ⟨d, cs⟩
  · refine stepsAlike_of_onLine ?_
    rw [lexeme, htext]
    exact ⟨List.not_mem_nil, by simp [Lexeme.read]⟩
  rw [htext] at hcrlf
  have hlexeme : c.lexeme = Lexeme.read (d :: cs) := by rw [lexeme, htext]
  by_cases hnewline : d = '\n'
  · subst hnewline
    exact stepsAlike_of_read htext rfl rfl hcrlf rfl rfl (fun _ => rfl) rfl
  by_cases hquote : d = '"'
  · subst hquote
    obtain ⟨rest, hform⟩ := Lexeme.exists_quotedAs cs
    refine stepsAlike_of_read (x := Lexeme.quoted cs) htext rfl hform.raw_append hcrlf
      hform.crlf.quoted_eq hform.crlf.raw_append (fun line => ?_) (Text.count_newline_crlf _)
    simp [Token.crlf, hform.kind, Text.withCrlf, Lexeme.withCrlf]
  by_cases hpipe : d = '|'
  · subst hpipe
    obtain ⟨rest, hform⟩ := Lexeme.exists_cellAs cs
    rw [show Lexeme.read ('|' :: cs) = Lexeme.cell cs from rfl] at hlexeme
    by_cases hkind : (Lexeme.cell cs).kind = .newline
    · exact stepsAlike_of_pipe htext hform hkind
    · exact stepsAlike_of_onLine (hlexeme ▸ hform.onLine hkind)
  · exact stepsAlike_of_onLine (hlexeme ▸ Lexeme.onLine_read hnewline hquote hpipe cs)

/-- The tokens of a text with the longer line ends, from any place on. -/
theorem tokens_crlf (c : Cursor) :
    (⟨Text.crlf c.rest, c.line⟩ : Cursor).tokens = c.tokens.map Token.crlf := by
  induction c using tokens.induct with
  | case1 c h =>
    obtain ⟨m, hnext, -⟩ := c.stepsAlike
    rw [tokens_of_eof h, tokens_of_eof (by rw [hnext, Token.kind_crlf, h]), hnext,
      List.map_singleton]
  | case2 c h ih =>
    obtain ⟨m, hnext, hm⟩ := c.stepsAlike
    rw [tokens_of_ne_eof h, tokens_of_ne_eof (by rw [hnext, Token.kind_crlf]; exact h), hnext,
      List.map_cons, ← ih]
    exact congrArg _ (tokens_congr rfl hm)

end Cursor

/-- **The line ends of a document do not matter.** With a carriage return in front of every line
feed, a text has the same tokens, up to the line ends inside strings and blocks. If there are none,
it holds the same document, or the same errors. -/
theorem tokens_withCrlf (s : String) :
    tokens (Text.withCrlf s) = (tokens s).map Token.crlf ∧
      ((∀ t ∈ tokens s, t.kind = .string ∨ t.kind = .docString → '\n' ∉ t.literal.toList) →
        parse (Text.withCrlf s) = parse s) := by
  have htokens : tokens (Text.withCrlf s) = (tokens s).map Token.crlf := by
    rw [tokens, Cursor.ofString, Text.withCrlf, String.toList_ofList]
    exact (Cursor.ofString s).tokens_crlf
  refine ⟨htokens, fun hline => ?_⟩
  have hsame : tokens (Text.withCrlf s) = tokens s :=
    htokens.trans (List.map_congr_left fun t ht => Token.crlf_eq_self (hline t ht)) |>.trans
      (List.map_id _)
  rw [parse, parse, Reader.ofString, Reader.ofString, hsame]

/-- A comment, a string, a table row with a space at its end and a pipe that stands alone. -/
theorem tokens_withCrlf_table :
    parse (Text.withCrlf "Feature: f # c\nScenario: s\nGiven \"a\"\n| b | \n|\n") =
      .ok ⟨[⟨"f", 1, [], [], none, [.scenario ⟨"s", 2, [],
        [⟨⟨.step .given, "Given", 3⟩, "\x7b\x7bs\x7d\x7d", ["a"], some ⟨[[⟨"b", 4⟩]]⟩, 3⟩]⟩]⟩]⟩ :=
  ((tokens_withCrlf _).2 (by decide +kernel)).trans (by decide +kernel)

end FeatureDoc
