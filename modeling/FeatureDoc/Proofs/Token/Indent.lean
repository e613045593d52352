import FeatureDoc.Proofs.Text.Trim
import FeatureDoc.Proofs.Token.Forms

/-!
# Indentation between tokens

Spaces inside a line separate lexemes and belong to none. Where some are put between two lexemes,
the first one may take them up, and then they are trimmed off its literal; otherwise they are
skipped in front of the second one.

* `Lexeme.padded x w` is the lexeme with what it takes up of the spaces `w` after it.
* `Lexeme.StandsFor m' m` says that the text `m'` may come after a lexeme in place of `m`: it starts
  alike, or lacks a comment at the end of a line, and closes no more angle brackets.
* `Lexeme.read_insert` says that a lexeme then stays the same.
* `Cursor.next_insert` is one step of a scan with spaces somewhere after the token.
* `tokens_insert_indent` says that spaces at a place that the scan reaches change no token.
-/

namespace FeatureDoc

/-! ## Spaces inside a line -/

theorem isIndent_iff {c : Char} : isIndent c = true ↔ c = ' ' ∨ c = '\t' ∨ c = '\r' := by
  simp [isIndent, or_assoc]

section Indent

variable {c : Char} (h : isIndent c = true)

include h

theorem isSpace_of_isIndent : Text.isSpace c = true := by
  rcases isIndent_iff.1 h with rfl | rfl | rfl <;> decide

theorem isLetter_of_isIndent : Text.isLetter c = false := by
  rcases isIndent_iff.1 h with rfl | rfl | rfl <;> decide +kernel

theorem isTagChar_of_isIndent : Text.isTagChar c = false := by
  rcases isIndent_iff.1 h with rfl | rfl | rfl <;> decide +kernel

theorem isDigit_of_isIndent : c.isDigit = false := by
  rcases isIndent_iff.1 h with rfl | rfl | rfl <;> decide

theorem isBodyChar_of_isIndent : isBodyChar c = (c == ' ') := by
  rcases isIndent_iff.1 h with rfl | rfl | rfl <;> decide +kernel

theorem ne_of_isIndent {d : Char} (hd : isIndent d = false) : c ≠ d := by
  rintro rfl
  rw [h] at hd
  cases hd

end Indent

theorem isIndent_of_isSpace {c : Char} (h : Text.isSpace c = false) : isIndent c = false :=
  Bool.eq_false_iff.2 fun hindent => by simp [isSpace_of_isIndent hindent] at h

/-! ## Lexemes -/

/-- Whether a lexeme of this kind goes on over a space that comes right after it. -/
def Kind.absorbs : Kind → Char → Bool
  | .comment, _ => true
  | .tableData, _ => true
  | .stepBody, c => c == ' '
  | _, _ => false

theorem Kind.absorbs_of_isKeyword {k : Kind} (h : k.isKeyword = true) (c : Char) :
    k.absorbs c = false := by
  cases k <;> simp_all [isKeyword, absorbs]

namespace Lexeme

/-- The lexeme with what it takes up of the spaces after it. -/
def padded (x : Lexeme) (w : List Char) : Lexeme :=
  { x with raw := x.raw ++ w.takeWhile x.kind.absorbs }

theorem padded_of_absorbs {x : Lexeme} (h : ∀ c, x.kind.absorbs c = false) (w : List Char) :
    x.padded w = x := by
  rw [padded, takeWhile_eq_nil_of_head? fun c _ => h c, List.append_nil]

theorem exampleValue_insert {l m : List Char} (hclosed : closesOnLine (l ++ m) = true)
    (h : (exampleValue (l ++ m)).raw = '<' :: l) (w m' : List Char) :
    exampleValue (l ++ (w ++ m')) = (exampleValue (l ++ m)).padded w := by
  obtain ⟨name, rest, heq, hname, -⟩ := closesOnLine_cases hclosed
  rw [heq, exampleValue_append_bracket hname] at h ⊢
  obtain rfl : name ++ ['>'] = l := (List.cons.inj h).2
  rw [padded_of_absorbs fun _ => rfl, List.append_assoc, List.singleton_append,
    exampleValue_append_bracket hname]

/-- `m'` may come after a lexeme in place of `m`: it starts alike, or a comment at the start of `m`
is gone and the line ends there, and it closes no angle bracket that `m` does not close. -/
structure StandsFor (m' m : List Char) : Prop where
  /-- How it starts. -/
  head : m'.head? = m.head? ∨ m.head? = some '#' ∧ ∀ x ∈ m'.head?, x = '\n'
  /-- A bracket that it closes on its first line is closed in `m`, too. -/
  closes : closesOnLine m' = true → closesOnLine m = true

theorem StandsFor.of_eq {m' m : List Char} (hhead : m'.head? = m.head?)
    (hclose : closesOnLine m' = closesOnLine m) : StandsFor m' m :=
  ⟨Or.inl hhead, fun h => hclose ▸ h⟩

/-- A run that stops in front of `m`, and at a line end, stops in front of `m'`. -/
theorem StandsFor.stop {m' m : List Char} (hm : StandsFor m' m) {p : Char → Bool}
    (hp : p '\n' = false) (h : ∀ x ∈ m.head?, p x = false) : ∀ x ∈ m'.head?, p x = false := by
  intro x hx
  rcases hm.head with heq | ⟨-, hline⟩
  · exact h x (heq ▸ hx)
  · exact hline x hx ▸ hp

section Insert

variable {l m m' w : List Char} (hw : ∀ c ∈ w, isIndent c = true) (hm : StandsFor m' m)

include hw hm

theorem comment_insert (h : (comment (l ++ m)).raw = '#' :: l) :
    comment (l ++ (w ++ m')) = (comment (l ++ m)).padded w := by
  have hbody : (l ++ m).takeWhile (· != '\n') = l := (List.cons.inj h).2
  have hall : w.takeWhile (· != '\n') = w :=
    List.takeWhile_eq_self_iff.2 fun c hc => bne_iff_ne.2 (ne_of_isIndent (hw c hc) rfl)
  have habsorbs : w.takeWhile (Kind.absorbs .comment) = w :=
    List.takeWhile_eq_self_iff.2 fun c _ => rfl
  have hstop := hm.stop rfl (head?_of_takeWhile_append hbody)
  rw [comment, comment, takeWhile_insert hbody hstop, hbody, hall, padded, habsorbs,
    Text.trim_append_of_isSpace fun c hc => isSpace_of_isIndent (hw c hc)]
  rfl

theorem tag_insert (h : (tag (l ++ m)).raw = '@' :: l) :
    tag (l ++ (w ++ m')) = (tag (l ++ m)).padded w := by
  have hname : (l ++ m).takeWhile Text.isTagChar = l := (List.cons.inj h).2
  have hnone : w.takeWhile Text.isTagChar = [] :=
    takeWhile_eq_nil_of_head? fun c hc => isTagChar_of_isIndent (hw c (List.mem_of_mem_head? hc))
  have hstop := hm.stop (by decide +kernel) (head?_of_takeWhile_append hname)
  rw [padded_of_absorbs fun _ => rfl, tag, tag, takeWhile_insert hname hstop, hname, hnone,
    List.append_nil]

theorem number_insert (h : (number (l ++ m)).raw = l) :
    number (l ++ (w ++ m')) = (number (l ++ m)).padded w := by
  have hdigits : (l ++ m).takeWhile Char.isDigit = l := h
  have hnone : w.takeWhile Char.isDigit = [] :=
    takeWhile_eq_nil_of_head? fun c hc => isDigit_of_isIndent (hw c (List.mem_of_mem_head? hc))
  have hstop := hm.stop rfl (head?_of_takeWhile_append hdigits)
  rw [padded_of_absorbs fun _ => rfl, number, number, takeWhile_insert hdigits hstop, hdigits,
    hnone, List.append_nil]

/-- A keyword ends in front of a character that is no letter, free text in front of one that cannot
go on with it. Free text takes up blanks, a keyword does not. -/
theorem word_insert {c : Char} (h : (word c (l ++ m)).raw = c :: l) :
    word c (l ++ (w ++ m')) = (word c (l ++ m)).padded w := by
  have hletters : w.takeWhile Text.isLetter = [] :=
    takeWhile_eq_nil_of_head? fun c hc => isLetter_of_isIndent (hw c (List.mem_of_mem_head? hc))
  unfold word at h ⊢
  dsimp only at h ⊢
  cases hk : Kind.ofKeyword? (String.ofList (c :: (l ++ m).takeWhile Text.isLetter)) with
  | some k =>
    rw [hk] at h
    have hword : (l ++ m).takeWhile Text.isLetter = l := (List.cons.inj h).2
    have hstop := hm.stop (by decide +kernel) (head?_of_takeWhile_append hword)
    rw [takeWhile_insert hword hstop, hletters, List.append_nil]
    rw [hword] at hk ⊢
    rw [hk, padded_of_absorbs (Kind.absorbs_of_isKeyword (Kind.isKeyword_of_ofKeyword? hk))]
  | none =>
    rw [hk] at h
    have hbody : (l ++ m).takeWhile isBodyChar = l := (List.cons.inj h).2
    have hstop := head?_of_takeWhile_append hbody
    have hletter : ∀ d ∈ m.head?, Text.isLetter d = false := by
      intro d hd
      have hd' := hstop d hd
      simp only [isBodyChar, Bool.or_eq_false_iff] at hd'
      exact hd'.1.1.1
    have hletter' : ∀ d ∈ (w ++ m').head?, Text.isLetter d = false := by
      intro d hd
      rcases w with _ | ⟨x, w⟩
      · exact hm.stop (by decide +kernel) hletter d hd
      · obtain rfl : x = d := Option.some.inj hd
        exact isLetter_of_isIndent (hw x List.mem_cons_self)
    rw [takeWhile_append_of_head? hletter] at hk ⊢
    have habsorbs : w.takeWhile isBodyChar = w.takeWhile (Kind.absorbs .stepBody) :=
      takeWhile_congr_of_mem fun x hx => isBodyChar_of_isIndent (hw x hx)
    rw [takeWhile_append_of_head? hletter', hk]
    dsimp only
    have hstop' := hm.stop (by decide +kernel) hstop
    rw [takeWhile_insert hbody hstop', hbody, habsorbs, padded, ← List.cons_append,
      Text.trim_append_of_isSpace fun x hx =>
        isSpace_of_isIndent (hw x ((List.takeWhile_sublist _).subset hx))]

/-- A string or a block that is closed ends there, whatever comes next; only an empty string may not
be followed by another quote. -/
theorem quoted_insert (hne : m ≠ []) (h : (quoted (l ++ m)).raw = '"' :: l) :
    quoted (l ++ (w ++ m')) = (quoted (l ++ m)).padded w := by
  have hkind : ∀ cs c, (quoted cs).kind.absorbs c = false := by
    intro cs c
    unfold quoted
    split <;> rfl
  rw [padded_of_absorbs (hkind _)]
  obtain ⟨rest, hform⟩ := exists_quotedAs (l ++ m)
  have hrest : rest = m := by
    have hsplit := hform.raw_append
    rw [h, List.cons_append, List.cons.injEq] at hsplit
    exact List.append_cancel_left hsplit.2
  generalize hcs : l ++ m = cs at h hform
  generalize quoted cs = x at h hform ⊢
  cases hform with
  | empty hquote =>
    obtain rfl : ['"'] = l := (List.cons.inj h).2
    rw [List.singleton_append]
    refine (QuotedAs.empty ?_).quoted_eq
    rcases w with _ | ⟨c, w⟩
    · rw [List.nil_append]
      rcases hm.head with heq | ⟨-, hline⟩
      · rw [heq, ← hrest]
        exact hquote
      · exact fun hc => absurd (hline _ hc) (by decide)
    · intro hc
      obtain rfl : c = '"' := Option.some.inj hc
      exact ne_of_isIndent (hw _ List.mem_cons_self) rfl rfl
  | @string body _ hbody hquote =>
    obtain rfl : body ++ ['"'] = l := (List.cons.inj h).2
    rw [List.append_assoc]
    exact (QuotedAs.string hbody hquote).quoted_eq
  | openString => exact absurd hrest.symm hne
  | @block body _ hbody =>
    obtain rfl : '"' :: '"' :: (body ++ ['"', '"', '"']) = l := (List.cons.inj h).2
    rw [List.cons_append, List.cons_append, List.append_assoc]
    refine (QuotedAs.block ?_).quoted_eq
    have hcongr := beforeTripleQuote_append_congr (l := body ++ ['"', '"', '"']) (m := rest)
      (by rw [List.append_assoc]; simp [hbody]) (w ++ m')
    rw [List.append_assoc, List.append_assoc] at hcongr
    exact hcongr.trans hbody
  | openBlock => exact absurd hrest.symm hne

/-- A cell takes up the spaces after it; the pipe that ends a line does not. -/
theorem cell_insert (hne : m ≠ []) (h : (cell (l ++ m)).raw = '|' :: l) :
    cell (l ++ (w ++ m')) = (cell (l ++ m)).padded w := by
  obtain ⟨rest, hform⟩ := exists_cellAs (l ++ m)
  have hrest : rest = m := by
    have hsplit := hform.raw_append
    rw [h, List.cons_append, List.cons.injEq] at hsplit
    exact List.append_cancel_left hsplit.2
  generalize hcs : l ++ m = cs at h hform
  generalize cell cs = x at h hform ⊢
  cases hform with
  | ending => exact absurd hrest.symm hne
  | @newline pad _ hpad =>
    obtain rfl : pad ++ ['\n'] = l := (List.cons.inj h).2
    rw [padded_of_absorbs fun _ => rfl, List.append_assoc]
    exact (CellAs.newline hpad).cell_eq
  | @cell pad body _ hpad hhead hbody hstop hempty =>
    obtain rfl : pad ++ body = l := (List.cons.inj h).2
    have hspace : ∀ c ∈ w, Text.isSpace c = true := fun c hc => isSpace_of_isIndent (hw c hc)
    have habsorbs : w.takeWhile (Kind.absorbs .tableData) = w :=
      List.takeWhile_eq_self_iff.2 fun c _ => rfl
    rw [hrest] at hstop hempty
    -- a cell takes up comments, so none comes after it
    have hhead_eq : m'.head? = m.head? :=
      hm.head.resolve_right fun hcomment => by simpa using hstop _ hcomment.1
    rw [← hhead_eq] at hstop hempty
    rw [padded, habsorbs]
    by_cases hnil : body = []
    · -- the spaces join those in front of the next pipe
      subst hnil
      have hpad' : ∀ c ∈ pad ++ w, isIndent c = true := by
        intro c hc
        exact (List.mem_append.1 hc).elim (hpad c) (hw c)
      have hcell := (CellAs.cell hpad' hhead hbody hstop hempty).cell_eq
      simpa using hcell
    · have hhead' : ∀ c ∈ (body ++ w).head?, isIndent c = false := by
        rwa [List.head?_append_of_ne_nil _ hnil]
      have hbody' : ∀ c ∈ body ++ w, c ≠ '|' ∧ c ≠ '\n' := by
        intro c hc
        refine (List.mem_append.1 hc).elim (hbody c) fun hc => ?_
        exact ⟨ne_of_isIndent (hw c hc) rfl, ne_of_isIndent (hw c hc) rfl⟩
      have hcell := (CellAs.cell hpad hhead' hbody' hstop fun heq =>
        absurd (List.append_eq_nil_iff.1 heq).1 hnil).cell_eq
      rw [Text.trim_append_of_isSpace hspace] at hcell
      simpa using hcell

end Insert

theorem closesOnLine_append (l m : List Char) : closesOnLine (l ++ m) =
    if '\n' ∈ l then closesOnLine l else l.contains '>' || closesOnLine m := by
  unfold closesOnLine
  split
  · next h => rw [takeWhile_append_of_exists ⟨_, h, rfl⟩]
  · next h =>
    have hl : ∀ c ∈ l, (c != '\n') = true := fun c hc => bne_iff_ne.2 fun heq => h (heq ▸ hc)
    rw [List.takeWhile_append_of_pos hl, List.contains_append]

theorem closesOnLine_insert {w : List Char} (hw : ∀ c ∈ w, isIndent c = true) (l m : List Char) :
    closesOnLine (l ++ (w ++ m)) = closesOnLine (l ++ m) := by
  have hnewline : '\n' ∉ w := fun hmem => ne_of_isIndent (hw _ hmem) rfl rfl
  have hbracket : w.contains '>' = false := by
    rw [Bool.eq_false_iff, ne_eq, List.contains_iff_mem]
    exact fun hmem => ne_of_isIndent (hw _ hmem) rfl rfl
  rw [closesOnLine_append, closesOnLine_append w, if_neg hnewline, hbracket, Bool.false_or,
    closesOnLine_append]

/-- What comes later on the line closes a bracket only where the other text does. -/
theorem StandsFor.closes_append {m' m w : List Char} (hm : StandsFor m' m)
    (hw : ∀ c ∈ w, isIndent c = true) {l : List Char}
    (h : closesOnLine (l ++ (w ++ m')) = true) : closesOnLine (l ++ m) = true := by
  rw [closesOnLine_insert hw, closesOnLine_append] at h
  rw [closesOnLine_append]
  split_ifs at h ⊢
  · exact h
  · rw [Bool.or_eq_true] at h ⊢
    exact h.imp_right hm.closes

/-- A reference closes its bracket itself. -/
theorem closesOnLine_of_exampleValue {l m : List Char} (hclosed : closesOnLine (l ++ m) = true)
    (h : (exampleValue (l ++ m)).raw = '<' :: l) (m' : List Char) :
    closesOnLine (l ++ m') = true := by
  obtain ⟨name, rest, heq, hname, hline⟩ := closesOnLine_cases hclosed
  rw [heq, exampleValue_append_bracket hname] at h
  obtain rfl : name ++ ['>'] = l := (List.cons.inj h).2
  rw [closesOnLine_append, if_neg (by simpa using hline)]
  simp

/-- **A lexeme depends on its own characters and on what may come after it**: how that starts, and
whether it closes an angle bracket on the line. Spaces in between are taken up or left. -/
theorem read_insert {l m m' w : List Char} (hw : ∀ c ∈ w, isIndent c = true)
    (hm : StandsFor m' m) (hne : m ≠ []) (h : (read (l ++ m)).raw = l) :
    read (l ++ (w ++ m')) = (read (l ++ m)).padded w := by
  rcases l with _ | ⟨c, l⟩
  · exact absurd h (raw_ne_nil hne)
  rw [List.cons_append] at h ⊢
  by_cases hcomment : c = '#'
  · subst hcomment
    exact comment_insert hw hm h
  by_cases hcolon : c = ':'
  · subst hcolon
    exact (padded_of_absorbs (fun _ => rfl) w).symm
  by_cases hnewline : c = '\n'
  · subst hnewline
    exact (padded_of_absorbs (fun _ => rfl) w).symm
  by_cases htag : c = '@'
  · subst htag
    exact tag_insert hw hm h
  by_cases hquote : c = '"'
  · subst hquote
    exact quoted_insert hw hm hne h
  by_cases hpipe : c = '|'
  · subst hpipe
    exact cell_insert hw hm hne h
  have hread : ∀ cs, read (c :: cs) = if c = '<' ∧ closesOnLine cs = true then exampleValue cs
      else if c.isDigit then number (c :: cs) else word c cs := by
    intro cs
    rw [read_cons, if_neg hcomment, if_neg hcolon, if_neg hnewline, if_neg htag, if_neg hquote,
      if_neg hpipe]
    by_cases hbracket : c = '<'
    · subst hbracket
      by_cases hclosed : closesOnLine cs = true <;> simp [hclosed]
    · simp [hbracket]
  rw [hread] at h
  rw [List.cons_append, hread, hread]
  by_cases href : c = '<' ∧ closesOnLine (l ++ m) = true
  · rw [if_pos href] at h
    obtain ⟨rfl, hclosed⟩ := href
    rw [if_pos ⟨rfl, closesOnLine_of_exampleValue hclosed h (w ++ m')⟩, if_pos ⟨rfl, hclosed⟩]
    exact exampleValue_insert hclosed h w m'
  have href' : ¬(c = '<' ∧ closesOnLine (l ++ (w ++ m')) = true) := fun hopen =>
    href (hopen.imp_right (hm.closes_append hw))
  rw [if_neg href] at h
  rw [if_neg href', if_neg href]
  by_cases hdigit : c.isDigit = true
  · rw [if_pos hdigit] at h
    rw [if_pos hdigit, if_pos hdigit]
    exact number_insert (l := c :: l) hw hm h
  · rw [if_neg hdigit] at h
    rw [if_neg hdigit, if_neg hdigit]
    exact word_insert hw hm h

end Lexeme

/-! ## Tokens -/

namespace Cursor

/-- Cursors whose texts agree once the indentation is skipped read the same tokens. -/
theorem next_congr {c c' : Cursor} (hline : c'.line = c.line)
    (h : c'.rest.dropWhile isIndent = c.rest.dropWhile isIndent) : c'.next = c.next := by
  simp only [next, hline, h]

/-- Where the next token is the same and so are those after it, all tokens are. -/
theorem tokens_of_next {c c' : Cursor} (htoken : c'.next.1 = c.next.1)
    (hmore : c'.next.2.tokens = c.next.2.tokens) : c'.tokens = c.tokens := by
  by_cases h : c.next.1.kind = .eof
  · rw [tokens_of_eof h, tokens_of_eof (htoken ▸ h), htoken]
  · rw [tokens_of_ne_eof h, tokens_of_ne_eof (htoken ▸ h), htoken, hmore]

theorem tokens_congr {c c' : Cursor} (hline : c'.line = c.line)
    (h : c'.rest.dropWhile isIndent = c.rest.dropWhile isIndent) : c'.tokens = c.tokens := by
  have hnext := next_congr hline h
  exact tokens_of_next (by rw [hnext]) (by rw [hnext])

/-- What the next token takes up of the text, with the indentation in front of it. -/
def consumed (c : Cursor) : List Char := c.rest.takeWhile isIndent ++ c.lexeme.raw

theorem consumed_append (c : Cursor) : c.consumed ++ c.next.2.rest = c.rest := by
  rw [consumed, List.append_assoc, raw_append, List.takeWhile_append_dropWhile]

/-- **One step of a scan with spaces after the token.** The text after the spaces may be another
one that may stand there. -/
theorem next_insert {c : Cursor} {w m : List Char} (hw : ∀ x ∈ w, isIndent x = true)
    (hm : Lexeme.StandsFor m c.next.2.rest) (hne : c.next.2.rest ≠ []) :
    (⟨c.consumed ++ (w ++ m), c.line⟩ : Cursor).next =
      (c.next.1, ⟨w.dropWhile c.lexeme.kind.absorbs ++ m, c.next.2.line⟩) := by
  have hraw : (Lexeme.read (c.lexeme.raw ++ c.next.2.rest)).raw = c.lexeme.raw := by
    rw [raw_append]
    rfl
  have hne' : c.lexeme.raw ≠ [] := by
    apply Lexeme.raw_ne_nil
    rw [← raw_append]
    exact List.append_ne_nil_of_right_ne_nil _ hne
  have hhead : ∀ x ∈ (c.lexeme.raw ++ (w ++ m)).head?, isIndent x = false := by
    have hstop := head?_dropWhile_eq_false isIndent c.rest
    rw [← raw_append, List.head?_append_of_ne_nil _ hne'] at hstop
    rwa [List.head?_append_of_ne_nil _ hne']
  have hindent : ∀ x ∈ c.rest.takeWhile isIndent, isIndent x = true := fun x hx =>
    List.mem_takeWhile_imp hx
  have htext : (c.consumed ++ (w ++ m)).dropWhile isIndent = c.lexeme.raw ++ (w ++ m) := by
    rw [consumed, List.append_assoc]
    exact (takeWhile_append_stop hindent hhead).2
  have hread := Lexeme.read_insert hw hm hne hraw
  rw [raw_append] at hread
  have hcount : (w.takeWhile c.lexeme.kind.absorbs).count '\n' = 0 := by
    apply List.count_eq_zero.2
    intro hmem
    exact ne_of_isIndent (hw _ ((List.takeWhile_sublist _).subset hmem)) rfl rfl
  have hsplit : c.lexeme.raw ++ (w ++ m) = (c.lexeme.raw ++ w.takeWhile c.lexeme.kind.absorbs) ++
      (w.dropWhile c.lexeme.kind.absorbs ++ m) := by
    rw [List.append_assoc, ← List.append_assoc (w.takeWhile _), List.takeWhile_append_dropWhile]
  have hdrop := (congrArg (List.drop _) hsplit).trans List.drop_left
  change (⟨⟨_, _, c.line⟩, ⟨_, _⟩⟩ : Token × Cursor) = _
  rw [htext, hread]
  change (_, (⟨List.drop (c.lexeme.raw ++ w.takeWhile c.lexeme.kind.absorbs).length _,
    c.line + (c.lexeme.raw ++ w.takeWhile c.lexeme.kind.absorbs).count '\n'⟩ : Cursor)) = _
  rw [hdrop, List.count_append, hcount]
  rfl

/-- The place after some tokens. -/
def after (c : Cursor) (k : Nat) : Cursor := (fun c => c.next.2)^[k] c

theorem after_succ (c : Cursor) (k : Nat) : c.after (k + 1) = c.next.2.after k :=
  Function.iterate_succ_apply _ k c

theorem rest_after_suffix (c : Cursor) (k : Nat) : (c.after k).rest <:+ c.rest := by
  induction k generalizing c with
  | zero => exact List.suffix_rfl
  | succ k ih =>
    rw [after_succ]
    exact (ih c.next.2).trans ⟨c.consumed, c.consumed_append⟩

/-- **Spaces at a place that the scan reaches change no token.** -/
theorem tokens_insert {w : List Char} (hw : ∀ x ∈ w, isIndent x = true) {c : Cursor} {k : Nat}
    {a b : List Char} (hab : c.rest = a ++ b) (hk : (c.after k).rest = b) (hb : k = 0 ∨ b ≠ []) :
    (⟨a ++ (w ++ b), c.line⟩ : Cursor).tokens = c.tokens := by
  induction k generalizing c a with
  | zero =>
    obtain rfl : a = [] := List.append_left_eq_self.1 (hab.symm.trans hk)
    refine tokens_congr rfl ?_
    rw [hab, List.nil_append, List.nil_append, List.dropWhile_append_of_pos hw]
  | succ k ih =>
    rw [after_succ] at hk
    have hb' : b ≠ [] := hb.resolve_left (Nat.succ_ne_zero k)
    obtain ⟨y, hy⟩ : b <:+ c.next.2.rest := hk ▸ c.next.2.rest_after_suffix k
    have hne : c.next.2.rest ≠ [] := by
      rw [← hy]
      exact List.append_ne_nil_of_right_ne_nil y hb'
    obtain rfl : a = c.consumed ++ y := by
      have hrest := c.consumed_append
      rw [← hy, hab, ← List.append_assoc] at hrest
      exact (List.append_cancel_right hrest).symm
    rw [List.append_assoc]
    by_cases hnil : y = []
    · -- the spaces stand right after the token
      subst hnil
      rw [List.nil_append] at hy ⊢
      have hnext := next_insert hw (.of_eq (congrArg List.head? hy) (by rw [hy])) hne
      refine tokens_of_next (by rw [hnext]) ?_
      rw [hnext]
      refine tokens_congr rfl ?_
      rw [← hy]
      exact List.dropWhile_append_of_pos fun x hx => hw x ((List.dropWhile_suffix _).subset hx)
    · -- they stand further away, so the token is read in the same way
      have hhead : (y ++ (w ++ b)).head? = c.next.2.rest.head? := by
        rw [← hy, List.head?_append_of_ne_nil _ hnil, List.head?_append_of_ne_nil _ hnil]
      have hclose : Lexeme.closesOnLine (y ++ (w ++ b)) =
          Lexeme.closesOnLine c.next.2.rest := by
        rw [← hy]
        exact Lexeme.closesOnLine_insert hw y b
      have hnext := next_insert (List.forall_mem_nil _) (.of_eq hhead hclose) hne
      rw [List.nil_append] at hnext
      refine tokens_of_next (by rw [hnext]) ?_
      rw [hnext]
      exact ih hy.symm hk (Or.inr hb')

end Cursor

/-- **Indentation does not matter.** Let the scan of a text stop after some tokens, at the start of
the text or before its end. Spaces, tabulators and carriage returns put there change no token. -/
theorem tokens_insert_indent {s a b w : String} {k : Nat} (hs : s = a ++ b)
    (hk : ((Cursor.ofString s).after k).rest = b.toList) (hb : k = 0 ∨ b ≠ "")
    (hw : ∀ c ∈ w.toList, isIndent c = true) : tokens (a ++ w ++ b) = tokens s := by
  have hab : (Cursor.ofString s).rest = a.toList ++ b.toList := by
    rw [hs]
    exact String.toList_append
  have hb' : k = 0 ∨ b.toList ≠ [] :=
    hb.imp_right fun hne hnil => hne (String.toList_eq_nil_iff.1 hnil)
  have htext : Cursor.ofString (a ++ w ++ b) = ⟨a.toList ++ (w.toList ++ b.toList), 1⟩ := by
    rw [Cursor.ofString, String.toList_append, String.toList_append, List.append_assoc]
  rw [tokens, htext]
  exact Cursor.tokens_insert hw hab hk hb'

/-- Free text takes up the blank, and the rest is skipped in front of the reference. -/
theorem tokens_insert_indent_reference :
    tokens ("Given a -" ++ " \t\r" ++ "<b> |\n") = tokens "Given a -<b> |\n" :=
  tokens_insert_indent (k := 2) rfl (by decide +kernel) (Or.inr (by decide))
    (List.all_eq_true.1 (by decide +kernel))

end FeatureDoc
