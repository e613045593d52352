import FeatureDoc.Proofs.Token.Indent

/-!
# A text without its comments

A comment goes up to the end of its line, and the line end stays when the comment is deleted. What
comes before a comment is then read in the same way: a lexeme ends in front of a line end as it does
in front of a comment, and a bracket that is open there is open without the comment.

* `Cursor.uncommented` is what is left of a text when the characters of its comments are deleted,
  `Text.withoutComments` is this for a whole text.
* `Cursor.standsFor_uncommented` says that this text may come after a lexeme in place of the one
  with the comments.
* `tokens_withoutComments` says that its tokens are the other tokens, on their lines.
-/

namespace FeatureDoc

/-- The tokens that are no comments. -/
def uncomment (ts : List Token) : List Token := ts.filter (·.kind != .comment)

theorem uncomment_cons_of_comment {t : Token} (h : t.kind = .comment) (ts : List Token) :
    uncomment (t :: ts) = uncomment ts :=
  List.filter_cons_of_neg (by simp [h])

theorem uncomment_cons {t : Token} (h : t.kind ≠ .comment) (ts : List Token) :
    uncomment (t :: ts) = t :: uncomment ts :=
  List.filter_cons_of_pos (by simp [h])

/-! ## Comments among lexemes -/

namespace Lexeme

/-- Only a number sign starts a comment. -/
theorem eq_comment_of_kind {cs : List Char} (h : (read cs).kind = .comment) :
    ∃ body, cs = '#' :: body ∧ read cs = comment body := by
  unfold read at h
  split at h
  · cases h
  · next body => exact ⟨body, rfl, rfl⟩
  · cases h
  · cases h
  · cases h
  · revert h
    unfold quoted
    split <;> exact nofun
  · revert h
    unfold cell
    split <;> exact nofun
  · split at h
    · cases h
    · exact (kind_word_ne (by decide) (by decide) _ _ h).elim
  · split at h
    · cases h
    · exact (kind_word_ne (by decide) (by decide) _ _ h).elim

end Lexeme

/-! ## Deleting the comments -/

namespace Cursor

variable {c : Cursor}

/-- The text from a place on, with the characters of all comments deleted. -/
def uncommented (c : Cursor) : List Char :=
  if c.next.1.kind = .eof then c.rest
  else if c.next.1.kind = .comment then c.rest.takeWhile isIndent ++ c.next.2.uncommented
  else c.consumed ++ c.next.2.uncommented
termination_by c.rest.length
decreasing_by all_goals exact next_rest_lt ‹_›

theorem uncommented_of_eof (h : c.next.1.kind = .eof) : c.uncommented = c.rest := by
  rw [uncommented, if_pos h]

theorem uncommented_of_comment (h : c.next.1.kind = .comment) :
    c.uncommented = c.rest.takeWhile isIndent ++ c.next.2.uncommented := by
  rw [uncommented, if_neg (by simp [h]), if_pos h]

theorem uncommented_of_ne (heof : c.next.1.kind ≠ .eof) (h : c.next.1.kind ≠ .comment) :
    c.uncommented = c.consumed ++ c.next.2.uncommented := by
  rw [uncommented, if_neg heof, if_neg h]

theorem uncommented_of_nil (h : c.rest = []) : c.uncommented = [] := by
  have heof : c.next.1.kind = .eof := by
    rw [next_eq, lexeme, h]
    rfl
  rw [uncommented_of_eof heof, h]

/-- After a comment comes the end of its line, or of the text. -/
theorem head?_rest_of_comment (h : c.next.1.kind = .comment) :
    ∀ x ∈ c.next.2.rest.head?, x = '\n' := by
  have hfits := c.lexeme_fits
  unfold Lexeme.Fits at hfits
  rwa [show c.lexeme.kind = .comment from h] at hfits

theorem line_of_comment (h : c.next.1.kind = .comment) : c.next.2.line = c.line := by
  obtain ⟨body, -, hread⟩ := Lexeme.eq_comment_of_kind (show (Lexeme.read _).kind = .comment from h)
  have hcount : c.lexeme.raw.count '\n' = 0 := by
    rw [lexeme, hread, Lexeme.comment, List.count_cons_of_ne (by decide)]
    exact Lexeme.count_newline_takeWhile rfl body
  rw [next_eq, hcount]
  rfl

theorem head?_of_comment (h : c.next.1.kind = .comment) (hindent : c.rest.takeWhile isIndent = []) :
    c.rest.head? = some '#' := by
  obtain ⟨body, htext, -⟩ := Lexeme.eq_comment_of_kind (show (Lexeme.read _).kind = .comment from h)
  rw [← List.takeWhile_append_dropWhile (p := isIndent) (l := c.rest), hindent, htext]
  rfl

theorem consumed_ne_nil (h : c.next.1.kind ≠ .eof) : c.consumed ≠ [] := by
  refine List.append_ne_nil_of_right_ne_nil _ (Lexeme.raw_ne_nil fun hnil => h ?_)
  rw [next_eq, lexeme, hnil]
  rfl

/-- A text without its comments may come after a lexeme in place of the text. -/
theorem standsFor_uncommented (c : Cursor) : Lexeme.StandsFor c.uncommented c.rest := by
  induction c using uncommented.induct with
  | case1 c heof =>
    rw [uncommented_of_eof heof]
    exact .of_eq rfl rfl
  | case2 c _ hcomment ih =>
    have hline : ∀ x ∈ c.next.2.uncommented.head?, x = '\n' := by
      intro x hx
      rcases ih.head with heq | ⟨-, hline⟩
      · exact head?_rest_of_comment hcomment x (heq ▸ hx)
      · exact hline x hx
    rw [uncommented_of_comment hcomment]
    refine ⟨?_, fun hclosed => ?_⟩
    · by_cases hindent : c.rest.takeWhile isIndent = []
      · rw [hindent]
        exact Or.inr ⟨head?_of_comment hcomment hindent, hline⟩
      · left
        conv_rhs => rw [← List.takeWhile_append_dropWhile (p := isIndent) (l := c.rest)]
        rw [List.head?_append_of_ne_nil _ hindent, List.head?_append_of_ne_nil _ hindent]
    · have hindent : ∀ x ∈ c.rest.takeWhile isIndent, isIndent x = true := fun x hx =>
        List.mem_takeWhile_imp hx
      have hopen := (Lexeme.closesOnLine_insert hindent [] _).symm.trans hclosed
      rw [List.nil_append] at hopen
      rcases hrest : c.next.2.uncommented with _ | ⟨x, rest⟩
      · rw [hrest] at hopen
        cases hopen
      · obtain rfl := hline x (by rw [hrest]; rfl)
        rw [hrest] at hopen
        cases hopen
  | case3 c heof hcomment ih =>
    rw [uncommented_of_ne heof hcomment]
    have hne := consumed_ne_nil heof
    refine ⟨Or.inl ?_, fun hclosed => ?_⟩
    · conv_rhs => rw [← c.consumed_append]
      rw [List.head?_append_of_ne_nil _ hne, List.head?_append_of_ne_nil _ hne]
    · rw [← c.consumed_append]
      exact ih.closes_append (List.forall_mem_nil _) hclosed

/-- A token before a comment is read in the same way when the comment is gone. -/
theorem next_uncommented (heof : c.next.1.kind ≠ .eof) (hcomment : c.next.1.kind ≠ .comment) :
    (⟨c.uncommented, c.line⟩ : Cursor).next =
      (c.next.1, ⟨c.next.2.uncommented, c.next.2.line⟩) := by
  rw [uncommented_of_ne heof hcomment]
  by_cases hrest : c.next.2.rest = []
  · have hconsumed := c.consumed_append
    rw [uncommented_of_nil hrest]
    rw [hrest] at hconsumed
    rw [hconsumed, ← hrest]
  · exact next_insert (w := []) (List.forall_mem_nil _) c.next.2.standsFor_uncommented hrest

/-- **The tokens of a text without its comments are those that are no comments.** -/
theorem tokens_uncommented (c : Cursor) :
    (⟨c.uncommented, c.line⟩ : Cursor).tokens = uncomment c.tokens := by
  induction c using uncommented.induct with
  | case1 c heof =>
    rw [uncommented_of_eof heof, tokens_of_eof heof, uncomment_cons (by simp [heof])]
    rfl
  | case2 c heof hcomment ih =>
    have hindent : ∀ x ∈ c.rest.takeWhile isIndent, isIndent x = true := fun x hx =>
      List.mem_takeWhile_imp hx
    rw [tokens_of_ne_eof heof, uncomment_cons_of_comment hcomment, ← ih]
    refine tokens_congr (line_of_comment hcomment).symm ?_
    rw [uncommented_of_comment hcomment, List.dropWhile_append_of_pos hindent]
  | case3 c heof hcomment ih =>
    have hnext := next_uncommented heof hcomment
    rw [tokens_of_ne_eof heof, uncomment_cons hcomment, ← ih,
      tokens_of_ne_eof (by rw [hnext]; exact heof), hnext]

end Cursor

/-- The text with the characters of its comments deleted, from each number sign that starts one up
to the end of its line. -/
def Text.withoutComments (s : String) : String := String.ofList (Cursor.ofString s).uncommented

/-- **Deleting the comments of a text takes their tokens away and changes no other.** -/
theorem tokens_withoutComments (s : String) :
    tokens (Text.withoutComments s) = uncomment (tokens s) := by
  have htext : Cursor.ofString (Text.withoutComments s) = ⟨(Cursor.ofString s).uncommented, 1⟩ := by
    rw [Cursor.ofString, Text.withoutComments, String.toList_ofList]
  rw [tokens, htext]
  exact (Cursor.ofString s).tokens_uncommented

end FeatureDoc
