import FeatureDoc.Proofs.Filter.TagGrammar
import FeatureDoc.Proofs.Text.Bytes

/-!
# Places in tag expressions

An error in a tag expression names a place, in bytes from the start. Such a place is never inside a
character, and what stands there is what the error is about: either the text ends there, or a
character that is no space stands there, or, where a name is missing, the at sign stands right
before it.

* `Symbol.StandsBetween` says what comes before and after the place of a symbol, one case for each
  symbol; `TagExpr.Splits.placed` that every piece of a text has such a place.
* `TagExpr.Complete ps` says that there is a last piece and that it cannot be passed, and
  `Piece.Refuses` that an error is about a piece. `TagExpr.parseAtom_cases` says what reading an
  atom comes to.
* `TagExpr.place_of_parse_error` is the main statement.
-/

namespace FeatureDoc

namespace TagExpr

/-! ## What stands at a place -/

/-- What comes before and after the place of a symbol. -/
def Symbol.StandsBetween (before after : List Char) : Symbol → Prop
  | .tag name => ∃ rest, after = '@' :: (name.toList ++ rest)
  | .and => ∃ rest, after = '&' :: '&' :: rest
  | .not => ∃ rest, after = '~' :: rest
  | .stop => after = []
  | .bad .missingName => before.getLast? = some '@'
  | .bad .boundaries => False
  | .bad _ => ∃ c rest, after = c :: rest ∧ Text.isSpace c = false

/-- A piece stands in a text, at its place and between two characters. -/
def Piece.Placed (input : List Char) (p : Piece) : Prop :=
  ∃ before after, input = before ++ after ∧ Text.byteLength before = p.start ∧
    p.symbol.StandsBetween before after

/-- **The pieces of a text have their places in it.** The text before those that are still to be
found is as long as the offset says. -/
theorem Splits.placed {before cs : List Char} {offset : ℕ} {ps : List Piece} {p : Piece}
    (h : Splits offset cs ps) (hoffset : Text.byteLength before = offset) (hp : p ∈ ps) :
    p.Placed (before ++ cs) := by
  induction h generalizing before with
  | stop =>
    rw [List.mem_singleton] at hp
    subst hp
    exact ⟨before, [], rfl, hoffset, rfl⟩
  | @space offset c cs ps _ _ ih =>
    have hlength : Text.byteLength (before ++ [c]) = offset + c.utf8Size := by
      rw [Text.byteLength_append, hoffset]
      rfl
    simpa using ih hlength hp
  | @missingName offset cs =>
    rw [List.mem_singleton] at hp
    subst hp
    refine ⟨before ++ ['@'], cs, by simp, ?_, by simp [Symbol.StandsBetween]⟩
    rw [Text.byteLength_append, hoffset]
    rfl
  | @tag offset name rest ps _ _ _ _ ih =>
    rcases List.mem_cons.1 hp with rfl | hp
    · exact ⟨before, '@' :: (name ++ rest), rfl, hoffset, rest, by rw [String.toList_ofList]⟩
    · have hlength : Text.byteLength (before ++ '@' :: name) =
          offset + 1 + Text.byteLength name := by
        rw [Text.byteLength_append, hoffset, Nat.add_assoc]
        rfl
      simpa using ih hlength hp
  | @not offset cs ps _ ih =>
    rcases List.mem_cons.1 hp with rfl | hp
    · exact ⟨before, '~' :: cs, rfl, hoffset, cs, rfl⟩
    · have hlength : Text.byteLength (before ++ ['~']) = offset + 1 := by
        rw [Text.byteLength_append, hoffset]
        rfl
      simpa using ih hlength hp
  | @and offset cs ps _ ih =>
    rcases List.mem_cons.1 hp with rfl | hp
    · exact ⟨before, '&' :: '&' :: cs, rfl, hoffset, cs, rfl⟩
    · have hlength : Text.byteLength (before ++ ['&', '&']) = offset + 2 := by
        rw [Text.byteLength_append, hoffset]
        rfl
      simpa using ih hlength hp
  | @loneAmpersand offset cs =>
    rw [List.mem_singleton] at hp
    subst hp
    exact ⟨before, '&' :: cs, rfl, hoffset, '&', cs, rfl, by decide⟩
  | @unexpectedChar offset c cs hspace =>
    rw [List.mem_singleton] at hp
    subst hp
    exact ⟨before, c :: cs, rfl, hoffset, c, cs, rfl, hspace⟩

/-! ## Which piece is refused -/

/-- A symbol that nothing is read after: the end of the text, or something that is no symbol. -/
def Symbol.isLast : Symbol → Bool
  | .stop | .bad _ => true
  | .tag _ | .and | .not => false

/-- There is a last piece, and it is the only one that nothing is read after. -/
inductive Complete : List Piece → Prop where
  /-- The last piece. -/
  | last {p : Piece} (h : p.symbol.isLast = true) : Complete [p]
  /-- Another piece. -/
  | cons {p : Piece} {ps : List Piece} (h : p.symbol.isLast = false) (hps : Complete ps) :
    Complete (p :: ps)

theorem Splits.complete {offset : ℕ} {cs : List Char} {ps : List Piece}
    (h : Splits offset cs ps) : Complete ps := by
  induction h with
  | stop => exact .last rfl
  | space _ _ ih => exact ih
  | tag _ _ _ _ ih => exact .cons rfl ih
  | not _ ih => exact .cons rfl ih
  | and _ ih => exact .cons rfl ih
  | missingName => exact .last rfl
  | loneAmpersand => exact .last rfl
  | unexpectedChar => exact .last rfl

/-- An error is about a piece: it names its place, and it says that a name is missing, or cannot be
cut out, if and only if that is what is wrong with the piece. -/
def Piece.Refuses (p : Piece) (e : FilterError) : Prop :=
  ∃ reason, e = .tagExpression p.start reason ∧
    (reason = .missingName ↔ p.symbol = .bad .missingName) ∧
    (reason = .boundaries ↔ p.symbol = .bad .boundaries)

variable {ps rest : List Piece} {e : FilterError}

/-- **What reading an atom comes to.** There is one, and pieces are left after it, or the error is
about one of the pieces. -/
theorem parseAtom_cases (h : Complete ps) :
    (∃ a rest, parseAtom ps = .ok (a, rest) ∧ Complete rest ∧ rest <:+ ps) ∨
      ∃ e, parseAtom ps = .error e ∧ ∃ p ∈ ps, p.Refuses e := by
  induction h with
  | @last p h =>
    refine .inr ?_
    rw [parseAtom]
    cases hp : p.symbol with
    | bad reason => exact ⟨_, rfl, p, List.mem_singleton_self p, reason, rfl, by simp [hp]⟩
    | stop => exact ⟨_, rfl, p, List.mem_singleton_self p, .expectedTag, rfl, by simp [hp]⟩
    | tag name => simp [hp, Symbol.isLast] at h
    | and => simp [hp, Symbol.isLast] at h
    | not => simp [hp, Symbol.isLast] at h
  | @cons p ps h hps ih =>
    rw [parseAtom]
    cases hp : p.symbol with
    | bad reason => simp [hp, Symbol.isLast] at h
    | stop => simp [hp, Symbol.isLast] at h
    | tag name => exact .inl ⟨_, ps, rfl, hps, List.suffix_cons p ps⟩
    | and => exact .inr ⟨_, rfl, p, List.mem_cons_self, _, rfl, by simp [hp]⟩
    | not =>
      rcases ih with ⟨a, rest, hatom, hrest, hsuffix⟩ | ⟨e, hatom, q, hq, hrefuses⟩
      · refine .inl ⟨.not a, rest, ?_, hrest, hsuffix.trans (List.suffix_cons p ps)⟩
        simp only [hatom]
        rfl
      · refine .inr ⟨e, ?_, q, List.mem_cons_of_mem p hq, hrefuses⟩
        simp only [hatom]
        rfl

/-- What reading the right side of an operator comes to. -/
theorem parseRight_cases (h : Complete ps) :
    (∃ a rest, parseRight ps = .ok (a, rest) ∧ Complete rest ∧ rest <:+ ps) ∨
      ∃ e, parseRight ps = .error e ∧ ∃ p ∈ ps, p.Refuses e := by
  rcases ps with _ | ⟨p, ps⟩
  · cases h
  · rw [parseRight]
    split
    · next hp =>
      refine .inr ⟨_, rfl, p, List.mem_cons_self, .expectedTagAfterAnd, rfl, ?_⟩
      rcases hp with hp | hp <;> simp [hp]
    · exact parseAtom_cases h

/-- An error in the rest of a conjunction is about one of the pieces. -/
theorem refuses_of_parseRest {left : TagExpr} (h : Complete ps)
    (he : parseRest left ps = .error e) : ∃ p ∈ ps, p.Refuses e := by
  induction hn : ps.length using Nat.strong_induction_on generalizing left ps with
  | _ n ih =>
    subst hn
    rcases ps with _ | ⟨p, ps⟩
    · cases h
    cases hp : p.symbol with
    | tag name | not | bad reason =>
      simp only [parseRest, hp] at he
      cases he
      exact ⟨p, List.mem_cons_self, _, rfl, by simp [hp]⟩
    | stop =>
      simp only [parseRest, hp] at he
      cases he
    | and =>
      have hps : Complete ps := by
        cases h with
        | last h => simp [hp, Symbol.isLast] at h
        | cons _ hps => exact hps
      rw [parseRest_and hp] at he
      rcases parseRight_cases hps with ⟨a, rest, hright, hrest, hsuffix⟩ | ⟨e', hright, q, hq, hq'⟩
      · rw [hright] at he
        have hlt : rest.length < (p :: ps).length := Nat.lt_succ_of_le hsuffix.length_le
        obtain ⟨q, hq, hrefuses⟩ := ih rest.length hlt hrest he rfl
        exact ⟨q, List.mem_cons_of_mem p (hsuffix.subset hq), hrefuses⟩
      · rw [hright] at he
        cases he
        exact ⟨q, List.mem_cons_of_mem p hq, hq'⟩

/-- **An error is about a piece of the text.** -/
theorem refuses_of_parse {input : String} (h : parse input = .error e) :
    ∃ p ∈ pieces input.toList 0 input.toList, p.Refuses e := by
  rw [parse] at h
  rcases parseAtom_cases (splits_pieces (Text.IsRest.zero input.toList)).complete with
    ⟨a, rest, hatom, hrest, hsuffix⟩ | ⟨e', hatom, hrefuses⟩
  · rw [hatom] at h
    obtain ⟨p, hp, hrefuses⟩ := refuses_of_parseRest hrest (show parseRest a rest = .error e from h)
    exact ⟨p, hsuffix.subset hp, hrefuses⟩
  · rw [hatom] at h
    cases h
    exact hrefuses

/-! ## Messages -/

theorem head?_message {reason : TagReason} (h : reason ≠ .boundaries) :
    reason.message.toList.head? = some 'e' ∨ reason.message.toList.head? = some 'u' := by
  have happend : ∀ (s t : String) c, s.toList.head? = some c → (s ++ t).toList.head? = some c := by
    intro s t c h
    rw [String.toList_append, List.head?_append, h, Option.some_or]
  cases reason with
  | boundaries => exact absurd rfl h
  | missingName | loneAmpersand | expectedTag | expectedTagAfterAnd => exact .inl rfl
  | expectedTagBut found => exact .inl (happend _ _ _ rfl)
  | unexpectedToken found => exact .inr (happend _ _ _ rfl)
  | unexpectedChar c => exact .inr (happend _ _ _ (happend _ _ _ rfl))

/-- Only one reason has the message about the boundaries of a tag. -/
theorem message_ne_boundaries {reason : TagReason} (h : reason ≠ .boundaries) :
    reason.message ≠ "invalid tag boundaries" := by
  intro hmessage
  rcases head?_message h with hhead | hhead <;> simp [hmessage] at hhead

/-! ## Places of a text -/

theorem Symbol.StandsBetween.isSpace_head? {symbol : Symbol} {before after : List Char}
    (h : symbol.StandsBetween before after) (hsymbol : symbol ≠ .bad .missingName) :
    ∀ c ∈ after.head?, Text.isSpace c = false := by
  have hcons : ∀ {c rest}, Text.isSpace c = false → after = c :: rest →
      ∀ c ∈ after.head?, Text.isSpace c = false := by
    rintro c rest hc rfl
    simpa using hc
  cases symbol with
  | tag name =>
    obtain ⟨rest, hafter⟩ := h
    exact hcons (by decide) hafter
  | and =>
    obtain ⟨rest, hafter⟩ := h
    exact hcons (by decide) hafter
  | not =>
    obtain ⟨rest, hafter⟩ := h
    exact hcons (by decide) hafter
  | stop => simp [show after = [] from h]
  | bad reason =>
    cases reason with
    | boundaries => exact h.elim
    | missingName => exact absurd rfl hsymbol
    | loneAmpersand | unexpectedChar | expectedTag | expectedTagBut | expectedTagAfterAnd
    | unexpectedToken =>
      obtain ⟨c, rest, hafter, hc⟩ := h
      exact hcons hc hafter

/-- The place of a piece splits its text in two. -/
theorem Piece.Placed.split {input : String} {p : Piece} (h : p.Placed input.toList) :
    ∃ before after : String, input = before ++ after ∧ before.utf8ByteSize = p.start ∧
      p.symbol.StandsBetween before.toList after.toList := by
  obtain ⟨before, after, hinput, hstart, hstands⟩ := h
  refine ⟨String.ofList before, String.ofList after, ?_, ?_, by simpa using hstands⟩
  · rw [← String.ofList_append, ← hinput, String.ofList_toList]
  · rw [Text.utf8ByteSize_ofList, hstart]

/-- **The places of errors.** An error of a tag expression names a place between two characters of
the text, or at one of its ends. No space comes after it; only where a name is missing may there be
one, and then the at sign comes right before the place. The boundaries of a tag are never at fault:
the name of every tag stands in the text, behind an at sign at the place of the tag. -/
theorem place_of_parse_error (input : String) :
    (∀ e, parse input = .error e → ∃ offset reason, e = .tagExpression offset reason ∧
      offset ≤ input.utf8ByteSize ∧ (⟨offset⟩ : String.Pos.Raw).IsValid input ∧
      (∃ before after : String, input = before ++ after ∧ before.utf8ByteSize = offset ∧
        (reason ≠ .missingName → ∀ c ∈ after.toList.head?, Text.isSpace c = false) ∧
        (reason = .missingName → before.toList.getLast? = some '@')) ∧
      reason.message ≠ "invalid tag boundaries") ∧
    ∀ name start, ⟨.tag name, start⟩ ∈ pieces input.toList 0 input.toList →
      ∃ before after : String, input = before ++ ("@" ++ (name ++ after)) ∧
        before.utf8ByteSize = start := by
  have hsplits := splits_pieces (Text.IsRest.zero input.toList)
  have hplaced : ∀ p ∈ pieces input.toList 0 input.toList, p.Placed input.toList :=
    fun p hp => hsplits.placed (show Text.byteLength [] = 0 from rfl) hp
  refine ⟨fun e he => ?_, fun name start hpiece => ?_⟩
  · obtain ⟨p, hp, reason, rfl, hreason, hboundaries⟩ := refuses_of_parse he
    obtain ⟨before, after, rfl, hstart, hstands⟩ := (hplaced p hp).split
    have hcut : reason ≠ .boundaries := by
      intro heq
      rw [hboundaries.1 heq] at hstands
      exact hstands
    refine ⟨p.start, reason, rfl, ?_, ?_,
      ⟨before, after, rfl, hstart, fun hne => ?_, fun heq => ?_⟩, message_ne_boundaries hcut⟩
    · rw [String.utf8ByteSize_append]
      omega
    · exact String.Pos.Raw.isValid_iff_exists_append.2
        ⟨before, after, rfl, by rw [← hstart]; rfl⟩
    · exact hstands.isSpace_head? fun hsymbol => hne (hreason.2 hsymbol)
    · rw [hreason.1 heq] at hstands
      exact hstands
  · obtain ⟨before, after, rfl, hstart, rest, hafter⟩ := (hplaced _ hpiece).split
    refine ⟨before, String.ofList rest, ?_, hstart⟩
    rw [← String.toList_inj, String.toList_append, hafter]
    simp

/-- A space of three bytes, an at sign and a space in place of the name; a character of four bytes
that starts nothing, behind such a space; and an operator at the end. -/
theorem place_of_parse_error_wide :
    (parse "\u2003@ a" = .error (.tagExpression 4 .missingName) ∧
      ∃ before after : String, "\u2003@ a" = before ++ after ∧ before.utf8ByteSize = 4 ∧
        before.toList.getLast? = some '@') ∧
    (parse "@é\u2003😀" = .error (.tagExpression 6 (.unexpectedChar '😀')) ∧
      (⟨6⟩ : String.Pos.Raw).IsValid "@é\u2003😀") ∧
    (parse "@é&& " = .error (.tagExpression 6 .expectedTagAfterAnd) ∧
      6 ≤ "@é&& ".utf8ByteSize) ∧
    ∃ before after : String, "@é&& " = before ++ ("@" ++ ("é" ++ after)) ∧
      before.utf8ByteSize = 0 := by
  have hmissing : parse "\u2003@ a" = .error (.tagExpression 4 .missingName) := by decide +kernel
  have hstray : parse "@é\u2003😀" = .error (.tagExpression 6 (.unexpectedChar '😀')) := by
    decide +kernel
  have hend : parse "@é&& " = .error (.tagExpression 6 .expectedTagAfterAnd) := by decide +kernel
  refine ⟨⟨hmissing, ?_⟩, ⟨hstray, ?_⟩, ⟨hend, ?_⟩, ?_⟩
  · obtain ⟨_, _, heq, -, -, ⟨before, after, hsplit, hsize, -, hat⟩, -⟩ :=
      (place_of_parse_error "\u2003@ a").1 _ hmissing
    cases heq
    exact ⟨before, after, hsplit, hsize, hat rfl⟩
  · obtain ⟨_, _, heq, -, hvalid, -⟩ := (place_of_parse_error "@é\u2003😀").1 _ hstray
    cases heq
    exact hvalid
  · obtain ⟨_, _, heq, hle, -⟩ := (place_of_parse_error "@é&& ").1 _ hend
    cases heq
    exact hle
  · exact (place_of_parse_error "@é&& ").2 "é" 0 (by decide +kernel)

end TagExpr

end FeatureDoc
