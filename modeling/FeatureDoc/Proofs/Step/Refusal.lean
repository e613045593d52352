import FeatureDoc.Proofs.Step.Prose
import FeatureDoc.Step.Read

/-!
# Step lines that are refused

A step line is read token by token, and each token is held only against the last character of the
text so far. This module says which lines are refused in that way and at which token, in terms of a
text that is built without any check.

* `appendLine mark` appends the tokens of a line to a text as a step does, but checks nothing, and
  writes the placeholders as `mark` says. With the placeholders as they are it gives the text of
  each line that is accepted (`StepText.text_of_readLine`).
* `Spoiled` says of a line that the name in a reference holds double braces, or that the text of
  the line does where each placeholder is a single space. A line is spoiled if and only if it is not
  `Admissible` (`spoiled_iff`): the prose of a line has fewer spaces, but ends alike
  (`EndAlike.appendLine`).
* `StepText.exists_of_readLine_error` splits a line that is refused at the token at fault.
* `Step.read_refuses` is the main statement: reading a step ends in the error about braces if and
  only if its line is spoiled, and the error is at the first token that spoils it.
-/

namespace FeatureDoc

/-! ## Appending without a check -/

/-- Append a token to a text without a check; `mark` writes the placeholders, and `next` is the
token that follows. -/
def appendToken (mark : Placeholder → List Char) (text : List Char) (t next : Token) : List Char :=
  match t.mark? with
  | some (p, _) => text ++ ' ' :: mark p ++ (if next.kind.isData then [] else [' '])
  | none => addProse text t

/-- Append the tokens of a line to a text without a check; `next` is the token after the line. -/
def appendLine (mark : Placeholder → List Char) (text : List Char) (line : List Token)
    (next : Token) : List Char :=
  match line with
  | [] => text
  | t :: line => appendLine mark (appendToken mark text t (line.headD next)) line next

/-- A line holds what looks like a placeholder: the name in a reference has double braces, or the
text of the line does where each placeholder is a single space. -/
def Spoiled (line : List Token) (next : Token) : Prop :=
  (∃ t ∈ line, t.kind = .exampleValue ∧ DoubleBraces t.literal.toList) ∨
    DoubleBraces (appendLine (fun _ => [' ']) [] line next)

theorem peek_eq_headD (ts : List Token) : peek ts = (takeLine ts).headD (peek (dropLine ts)) := by
  rcases ts with _ | ⟨t, ts⟩
  · rfl
  · by_cases ht : t.kind.endsLine = true
    · rw [takeLine_cons_of_endsLine ht, dropLine_cons_of_endsLine ht]
      rfl
    · rw [takeLine_cons (Bool.not_eq_true _ ▸ ht)]
      rfl

/-- A number, a string or a reference brings a placeholder. -/
theorem addProse_of_mark? {t : Token} {d : Placeholder × String} (h : t.mark? = some d)
    (text : List Char) : addProse text t = text ++ [' '] := by
  unfold Token.mark? at h
  split at h
  · next hk => simp only [addProse, hk]
  · exact addProse_of_datum? h text

/-- A token that is accepted is appended. -/
theorem StepText.text_of_add {s s' : StepText} {t next : Token} (h : s.add t next = .ok s') :
    s'.text = appendToken Placeholder.chars s.text t next := by
  unfold appendToken
  obtain ⟨p, hp, -, rfl⟩ | ⟨hk, -, rfl⟩ | ⟨hk, rfl⟩ | ⟨hk, rfl⟩ | ⟨hk, -, rfl⟩ := add_cases h
  · have hmark : t.mark? = some (p, t.literal) := by
      rw [Token.mark?, if_neg fun hk => ?_, hp]
      rw [Token.datum?_eq_none (Or.inl hk)] at hp
      cases hp
    rw [hmark]
    rfl
  · rw [Token.mark?, if_pos hk]
    rfl
  · simp only [Token.mark?_eq_none_iff.2 (Or.inl hk), addProse, hk]
  · simp only [Token.mark?_eq_none_iff.2 (Or.inr (Or.inl hk)), addProse, hk]
    rfl
  · rw [Token.mark?_eq_none_iff.2 (Or.inr (Or.inr hk))]
    exact (addProse_of_isProse hk s.text).symm

/-- **The text of a line that is accepted** is that of its tokens, appended without a check. -/
theorem StepText.text_of_readLine {s s' : StepText} {ts rest : List Token}
    (h : s.readLine ts = .ok (s', rest)) :
    s'.text = appendLine Placeholder.chars s.text (takeLine ts) (peek (dropLine ts)) := by
  induction ts generalizing s with
  | nil =>
    cases h
    rfl
  | cons t ts ih =>
    by_cases ht : t.kind.endsLine = true
    · rw [readLine_of_endsLine s (t :: ts) ht] at h
      cases h
      rw [takeLine_cons_of_endsLine ht]
      rfl
    · rw [Bool.not_eq_true] at ht
      rw [readLine_cons ht] at h
      rw [takeLine_cons ht, dropLine_cons ht, appendLine, ← peek_eq_headD]
      split at h
      · next s₁ hadd => rw [ih h, text_of_add hadd]
      · cases h

/-! ## Spaces for placeholders -/

/-- Two texts that end alike and of which both or neither are free of double braces. -/
structure EndAlike (u v : List Char) : Prop where
  /-- They end alike. -/
  getLast? : u.getLast? = v.getLast?
  /-- Both or neither are free of double braces. -/
  isChain_iff : u.IsChain Apart ↔ v.IsChain Apart

theorem isChain_append_spaces {u gap : List Char} (hgap : ∀ c ∈ gap, c = ' ') :
    (u ++ gap).IsChain Apart ↔ u.IsChain Apart := by
  have hplain : ∀ c ∈ gap, IsPlain c := fun c hc => hgap c hc ▸ (by decide)
  rw [List.isChain_append]
  constructor
  · exact fun h => h.1
  · exact fun h => ⟨h, isChain_apart_of_forall hplain,
      fun _ _ y hy => Apart.of_right (hplain y (List.mem_of_mem_head? hy))⟩

namespace EndAlike

variable {u v : List Char}

theorem isEmpty (h : EndAlike u v) : u.isEmpty = v.isEmpty := by
  rw [Bool.eq_iff_iff, List.isEmpty_iff, List.isEmpty_iff, ← List.getLast?_eq_none_iff,
    ← List.getLast?_eq_none_iff, h.getLast?]

theorem append (h : EndAlike u v) (piece : List Char) : EndAlike (u ++ piece) (v ++ piece) := by
  constructor
  · rw [List.getLast?_append, List.getLast?_append, h.getLast?]
  · rw [List.isChain_append, List.isChain_append, h.getLast?, h.isChain_iff]

/-- It does not matter how many spaces come after two texts. -/
theorem append_spaces (h : EndAlike u v) {gap gap' : List Char} (hgap : ∀ c ∈ gap, c = ' ')
    (hgap' : ∀ c ∈ gap', c = ' ') :
    EndAlike (u ++ ' ' :: gap) (v ++ ' ' :: gap') := by
  have hlast : ∀ {gap : List Char}, (∀ c ∈ gap, c = ' ') →
      ∀ w : List Char, (w ++ ' ' :: gap).getLast? = some ' ' := by
    intro gap hgap w
    rw [List.getLast?_append_of_ne_nil _ (List.cons_ne_nil _ _),
      List.getLast?_eq_some_getLast (List.cons_ne_nil _ _)]
    rcases List.mem_cons.1 (List.getLast_mem (List.cons_ne_nil ' ' gap)) with heq | hmem
    · rw [heq]
    · rw [hgap _ hmem]
  constructor
  · rw [hlast hgap, hlast hgap']
  · rw [isChain_append_spaces (List.forall_mem_cons.2 ⟨rfl, hgap⟩),
      isChain_append_spaces (List.forall_mem_cons.2 ⟨rfl, hgap'⟩), h.isChain_iff]

/-- Prose is joined to the last character. -/
theorem addProse (h : EndAlike u v) {t : Token} (ht : t.mark? = none) :
    EndAlike (addProse u t) (addProse v t) := by
  rcases Token.mark?_eq_none_iff.1 ht with hk | hk | hk
  · simpa only [FeatureDoc.addProse, hk] using h
  · simp only [FeatureDoc.addProse, hk, h.isEmpty, h.getLast?, List.append_assoc]
    exact h.append _
  · rw [addProse_of_isProse hk, addProse_of_isProse hk]
    unfold Text.joinWord
    rw [h.getLast?]
    split
    · exact h.append _
    · exact h.append _

/-- Whatever a token brings, the text and the prose go on ending alike. -/
theorem appendToken (h : EndAlike u v) (t next : Token) :
    EndAlike (appendToken (fun _ => [' ']) u t next) (FeatureDoc.addProse v t) := by
  unfold FeatureDoc.appendToken
  split
  · next p _ hmark =>
    rw [addProse_of_mark? hmark, List.append_assoc]
    refine h.append_spaces (fun c hc => ?_) (by simp)
    split at hc
    · simpa using hc
    · simpa using hc
  · next hmark => exact h.addProse hmark

theorem appendLine (h : EndAlike u v) (line : List Token) (next : Token) :
    EndAlike (appendLine (fun _ => [' ']) u line next) (line.foldl FeatureDoc.addProse v) := by
  induction line generalizing u v with
  | nil => exact h
  | cons t line ih => exact ih (h.appendToken t (line.headD next))

end EndAlike

/-- **A line is spoiled if and only if it is not admissible.** -/
theorem spoiled_iff {line : List Token} {next : Token} : Spoiled line next ↔ ¬ Admissible line := by
  have hprose : DoubleBraces (appendLine (fun _ => [' ']) [] line next) ↔
      hasDelimiter (prose line) = true := by
    rw [← hasDelimiter_iff, ← Bool.not_eq_false, ← Bool.not_eq_false, hasDelimiter_eq_false_iff,
      hasDelimiter_eq_false_iff, prose]
    exact not_congr (EndAlike.appendLine ⟨rfl, Iff.rfl⟩ line next).isChain_iff
  have hrefs : (∃ t ∈ line, t.kind = .exampleValue ∧ DoubleBraces t.literal.toList) ↔
      ¬ ∀ t ∈ line, t.kind = .exampleValue → hasDelimiter t.literal.toList = false := by
    simp only [← hasDelimiter_iff]
    push Not
    simp only [ne_eq, Bool.not_eq_false]
  rw [Spoiled, hprose, hrefs, ← Bool.not_eq_false, ← not_and_or]
  exact not_congr ⟨fun ⟨h, h'⟩ => ⟨h, h'⟩, fun ⟨h, h'⟩ => ⟨h, h'⟩⟩

/-! ## The token at fault -/

/-- A line that is refused is refused at the first token that makes it inadmissible. That token is
consumed. -/
theorem StepText.exists_of_readLine_error {s : StepText} {text : List Char} {ts : List Token}
    {failure : Failure} (h : Echoes s.text text (peek ts)) (htext : text.IsChain Apart)
    (hspelled : ∀ t ∈ takeLine ts, t.Spelled) (herr : s.readLine ts = .error failure) :
    ∃ front t back, takeLine ts = front ++ t :: back ∧
      failure = ⟨.reservedDelimiter t.line, back ++ dropLine ts⟩ ∧
      KeepsAdmissible text front ∧ ¬ KeepsAdmissible text (front ++ [t]) := by
  induction ts generalizing s text with
  | nil => cases herr
  | cons t ts ih =>
    by_cases ht : t.kind.endsLine = true
    · rw [readLine_of_endsLine s (t :: ts) ht] at herr
      cases herr
    · rw [Bool.not_eq_true] at ht
      rw [readLine_cons ht] at herr
      rw [takeLine_cons ht] at hspelled ⊢
      rw [dropLine_cons ht]
      split at herr
      · next s₁ hadd =>
        obtain ⟨href, hchain⟩ := isChain_of_add h htext (hspelled t List.mem_cons_self) hadd
        obtain ⟨front, u, back, heq, hfailure, hfront, hu⟩ := ih (echoes_add h hadd) hchain
          (fun u hu => hspelled u (List.mem_cons_of_mem t hu)) herr
        refine ⟨t :: front, u, back, by rw [heq, List.cons_append], hfailure,
          keepsAdmissible_cons.2 ⟨href, hfront⟩, fun hall => hu ?_⟩
        exact (keepsAdmissible_cons.1 hall).2
      · next e hadd =>
        cases herr
        refine ⟨[], t, takeLine ts, rfl, ?_, keepsAdmissible_nil.2 htext, fun hall => ?_⟩
        · rw [error_of_add hadd, takeLine_append_dropLine]
        · -- were the token harmless, it would have been added
          obtain ⟨href, hchain⟩ := keepsAdmissible_cons.1 hall
          obtain ⟨s₁, hok⟩ :=
            add_of_isChain (peek ts) h htext href (keepsAdmissible_nil.1 hchain)
          cases hadd.symm.trans hok

/-! ## Reading a step -/

namespace ParseError

/-- The wording about braces belongs to one error only. -/
theorem message_eq_reserved_iff {e : ParseError} :
    e.message = "step text may not contain '\x7b\x7b' or '\x7d\x7d'" ↔
      ∃ line, e = .reservedDelimiter line := by
  constructor
  · intro h
    -- every other wording starts with a text of its own
    have hstart : ∀ {start more : String},
        start ++ more = "step text may not contain '\x7b\x7b' or '\x7d\x7d'" →
        start.toList <+: "step text may not contain '\x7b\x7b' or '\x7d\x7d'".toList := by
      intro start more heq
      rw [← heq, String.toList_append]
      exact List.prefix_append _ _
    cases e with
    | unexpectedToken expected found literal line =>
      change "expected " ++ expected.name ++ " but found " ++ found.name = _ at h
      rw [String.append_assoc, String.append_assoc] at h
      exact absurd (hstart h) (by decide +kernel)
    | noSteps owner found line =>
      change owner.name ++ _ ++ found.name = _ at h
      rw [String.append_assoc] at h
      cases owner <;> exact absurd (hstart h) (by decide +kernel)
    | afterFeature found line =>
      change "unexpected " ++ found.name ++ _ = _ at h
      rw [String.append_assoc] at h
      exact absurd (hstart h) (by decide +kernel)
    | reservedDelimiter line => exact ⟨line, rfl⟩
    | raggedRow actual expected line =>
      change "table row has " ++ actual.repr ++ _ ++ expected.repr = _ at h
      rw [String.append_assoc, String.append_assoc] at h
      exact absurd (hstart h) (by decide +kernel)
  · rintro ⟨line, rfl⟩
    rfl

end ParseError

/-- The errors of a table are about its cells. -/
theorem Table.ne_reserved_of_readRows {width : Option Nat} {ts : List Token} {failure : Failure}
    (h : readRows width ts = .error failure) (line : Nat) :
    failure.error ≠ .reservedDelimiter line := by
  have hrow : ∀ {ts failure}, readRow ts = .error failure →
      failure.error ≠ .reservedDelimiter line := by
    intro ts failure h
    dsimp only [readRow] at h
    split at h
    · cases h
    · cases h
      simp [ParseError.unexpected]
  fun_induction readRows width ts with
  | case1 => cases h
  | case2 width t ts hcell failure' hfirst =>
    cases h
    exact hrow hfirst
  | case3 width t ts hcell row rest hfirst hwidth ih =>
    rcases Parsed.andThen_eq_error.1 h with h | ⟨rows, rest', -, h⟩
    · exact ih h
    · cases h
  | case4 width t ts hcell row rest hfirst hwidth =>
    cases h
    simp
  | case5 => cases h

namespace Step

theorem ne_reserved_of_readTable? {ts : List Token} {failure : Failure}
    (h : readTable? ts = .error failure) (line : Nat) :
    failure.error ≠ .reservedDelimiter line := by
  unfold readTable? at h
  split at h
  · obtain h | ⟨table, rest, -, h⟩ := Parsed.andThen_eq_error.1 h
    · obtain h | ⟨rows, rest, -, h⟩ := Parsed.andThen_eq_error.1 h
      · exact Table.ne_reserved_of_readRows h line
      · cases h
    · cases h
  · cases h

/-- The error about braces comes from the line of the step. -/
theorem read_eq_error_reserved_iff {keyword : Token} {ts : List Token} {failure : Failure} :
    read keyword ts = .error failure ∧ (∃ line, failure.error = .reservedDelimiter line) ↔
      StepText.empty.readLine ts = .error failure := by
  constructor
  · rintro ⟨h, line, hline⟩
    obtain h | ⟨body, rest, -, h⟩ := Parsed.andThen_eq_error.1 h
    · exact h
    · obtain h | ⟨table, rest', -, h⟩ := Parsed.andThen_eq_error.1 h
      · exact absurd hline (ne_reserved_of_readTable? h line)
      · cases h
  · intro h
    exact ⟨Parsed.andThen_eq_error.2 (.inl h), StepText.error_of_readLine h⟩

/-- **Which steps are refused for their braces, and where.** On the tokens of a text from any place
on, reading a step ends in the error about double braces if and only if its line is spoiled. The
error is on the line of the first token that spoils it: the line is spoiled with that token, and
no part of what comes before is. -/
theorem read_refuses {source : String} {ts : List Token} (h : ts <:+ tokens source)
    (keyword : Token) :
    ((∃ failure, read keyword ts = .error failure ∧
        failure.error.message = "step text may not contain '\x7b\x7b' or '\x7d\x7d'") ↔
      Spoiled (takeLine ts) (peek (dropLine ts))) ∧
    ∀ failure, read keyword ts = .error failure →
      failure.error.message = "step text may not contain '\x7b\x7b' or '\x7d\x7d'" →
      ∃ front t back, takeLine ts = front ++ t :: back ∧ failure.error.line = t.line ∧
        Spoiled (front ++ [t]) (peek (back ++ dropLine ts)) ∧
        ∀ part next, part <+: front → ¬ Spoiled part next := by
  have hspelled : ∀ t ∈ takeLine ts, t.Spelled := fun t ht =>
    ((stream_tokens source).of_suffix h).spelled t (List.takeWhile_subset _ ht)
  have hread : ∀ failure, read keyword ts = .error failure ∧
      failure.error.message = "step text may not contain '\x7b\x7b' or '\x7d\x7d'" ↔
        StepText.empty.readLine ts = .error failure := fun failure => by
    rw [ParseError.message_eq_reserved_iff, read_eq_error_reserved_iff]
  refine ⟨?_, fun failure herr hmessage => ?_⟩
  · simp only [hread]
    rw [spoiled_iff, ← StepText.readLine_eq_ok_iff hspelled]
    cases hline : StepText.empty.readLine ts with
    | error failure => simp
    | ok x =>
      obtain ⟨s, rest⟩ := x
      simp [StepText.rest_of_readLine hline]
  · obtain ⟨front, t, back, heq, rfl, hfront, ht⟩ := StepText.exists_of_readLine_error
      (StepText.echoes_empty _) List.isChain_nil hspelled ((hread failure).1 ⟨herr, hmessage⟩)
    refine ⟨front, t, back, heq, rfl, spoiled_iff.2 (admissible_iff.not.2 ht), ?_⟩
    intro part next hpart hspoiled
    exact spoiled_iff.1 hspoiled (admissible_iff.2 (hfront.of_isPrefix hpart))

/-- Two braces that meet across a gap are a pair, those around the number are not. -/
theorem read_refuses_pair_of_tokens :
    let source := "Given \"x\ny\" \x7b1\x7d \x7b \x7b!\n"
    let ts := (tokens source).tail
    read ⟨.step .given, "Given", 1⟩ ts =
      .error ⟨.reservedDelimiter 2,
        [⟨.stepBody, "!", 2⟩, ⟨.newline, "\n", 2⟩, ⟨.eof, "", 3⟩]⟩ ∧
    Spoiled (takeLine ts) (peek (dropLine ts)) ∧
    ∃ front t back, takeLine ts = front ++ t :: back ∧ 2 = t.line ∧
      Spoiled (front ++ [t]) (peek (back ++ dropLine ts)) ∧
      ∀ part next, part <+: front → ¬ Spoiled part next := by
  intro source ts
  have herr : read ⟨.step .given, "Given", 1⟩ ts =
      .error ⟨.reservedDelimiter 2,
        [⟨.stepBody, "!", 2⟩, ⟨.newline, "\n", 2⟩, ⟨.eof, "", 3⟩]⟩ := by
    decide +kernel
  have h := read_refuses (List.tail_suffix (tokens source)) ⟨.step .given, "Given", 1⟩
  exact ⟨herr, h.1.1 ⟨_, herr, rfl⟩, h.2 _ herr rfl⟩

end Step

end FeatureDoc
