import FeatureDoc.Proofs.Token.Comment
import Mathlib.Data.List.ReduceOption

/-!
# Asking for tokens

A scan is asked for tokens in two ways, which may be mixed: `Scan.read` gives a token in any case,
`Scan.next?` gives none once it has handed out the end token itself. Both move the same cursor.

* `Cursor.next_of_eof` says what the end token is and that nothing is left behind it;
  `Cursor.consumed_ne_nil` that any other token takes up a character.
* `Scan.answers` are the answers to a list of calls. `Scan.answer_cases` says what one call does,
  `Scan.reduceOption_answers` and `Scan.answers_eq_none_iff` what any number of calls do.
* `Scan.answers_stream` is the main statement: however the calls are mixed, the answers are the
  tokens of the text in order, and the end token from then on.
-/

namespace FeatureDoc

/-! ## The end of a text -/

namespace Lexeme

/-- An end token stands for all that is left, which is on one line. -/
theorem read_of_eof {cs : List Char} (h : (read cs).kind = .eof) :
    read cs = ⟨.eof, [], cs⟩ ∧ '\n' ∉ cs := by
  refine ⟨?_, fun hmem => kind_read_ne_eof hmem h⟩
  unfold read at h ⊢
  split at h
  · rfl
  · cases h
  · cases h
  · cases h
  · cases h
  · revert h
    unfold quoted
    split <;> exact nofun
  · next cs =>
    change (cell cs).kind = .eof at h
    obtain ⟨rest, hform⟩ := exists_cellAs cs
    generalize cell cs = x at h hform ⊢
    cases hform with
    | ending => rfl
    | newline => cases h
    | cell => cases h
  · split at h
    · cases h
    · exact absurd h (kind_word_ne_eof _ _)
  · split at h
    · cases h
    · exact absurd h (kind_word_ne_eof _ _)

end Lexeme

namespace Cursor

/-- The end token has no text of its own, and nothing is left behind it. -/
theorem next_of_eof {c : Cursor} (h : c.next.1.kind = .eof) :
    c.next = (⟨.eof, "", c.line⟩, ⟨[], c.line⟩) := by
  obtain ⟨hread, hline⟩ := Lexeme.read_of_eof (show (Lexeme.read _).kind = .eof from h)
  have hlexeme : c.lexeme = ⟨.eof, [], c.rest.dropWhile isIndent⟩ := hread
  rw [next_eq, hlexeme]
  simp [List.count_eq_zero.2 hline]

/-- At the end of a text, the end token is read again and again. -/
theorem next_next_of_eof {c : Cursor} (h : c.next.1.kind = .eof) :
    c.next.2.next = c.next := by
  rw [next_of_eof h]
  rfl

/-- There is at most one token for each character, and the end token. -/
theorem length_tokens_le (c : Cursor) : c.tokens.length ≤ c.rest.length + 1 := by
  induction c using tokens.induct with
  | case1 c h => simp [tokens_of_eof h]
  | case2 c h ih =>
    have hlt := next_rest_lt h
    rw [tokens_of_ne_eof h, List.length_cons]
    omega

end Cursor

/-! ## Calls -/

namespace Scan

/-- A way to ask for a token. -/
inductive Call where
  /-- Read a token in any case. -/
  | read
  /-- Hand out the next token, the end token only once. -/
  | next
  deriving DecidableEq, Repr

/-- The answer to a call. -/
def answer (s : Scan) : Call → Option Token × Scan
  | .read => (some s.read.1, s.read.2)
  | .next => s.next?

/-- The answers to calls, one after the other. -/
def answers (s : Scan) : List Call → List (Option Token) × Scan
  | [] => ([], s)
  | call :: calls =>
    ((s.answer call).1 :: ((s.answer call).2.answers calls).1, ((s.answer call).2.answers calls).2)

variable {s : Scan} {call : Call}

@[simp] theorem answers_nil (s : Scan) : s.answers [] = ([], s) := rfl

@[simp] theorem answers_cons (s : Scan) (call : Call) (calls : List Call) :
    s.answers (call :: calls) = ((s.answer call).1 :: ((s.answer call).2.answers calls).1,
      ((s.answer call).2.answers calls).2) := rfl

/-- **What a call does.** It gives nothing and changes nothing, or it gives the next token, moves
past it, and takes note if it hands out the end token. -/
theorem answer_cases (s : Scan) (call : Call) :
    (call = .next ∧ s.ended = true ∧ s.answer call = (none, s)) ∨
    ((call = .next → s.ended = false) ∧ s.answer call = (some s.cursor.next.1,
      ⟨s.cursor.next.2, s.ended || (call == .next && s.cursor.next.1.kind == .eof)⟩)) := by
  obtain ⟨cursor, ended⟩ := s
  cases call with
  | read => exact Or.inr ⟨nofun, by simp [answer, read]⟩
  | next =>
    cases ended with
    | false => exact Or.inr ⟨fun _ => rfl, rfl⟩
    | true => exact Or.inl ⟨rfl, rfl, rfl⟩

/-- Once the end of the text was reached, only the end token is handed out. -/
theorem eof_of_mem_answers (calls : List Call) (h : s.cursor.next.1.kind = .eof) :
    ∀ t ∈ (s.answers calls).1.reduceOption, t = s.cursor.next.1 := by
  induction calls generalizing s with
  | nil => simp
  | cons call calls ih =>
    rw [answers_cons]
    rcases s.answer_cases call with ⟨-, -, heq⟩ | ⟨-, heq⟩
    · rw [heq, List.reduceOption_cons_of_none]
      exact ih h
    · rw [heq, List.reduceOption_cons_of_some, List.forall_mem_cons]
      refine ⟨rfl, fun t ht => ?_⟩
      have hnext := Cursor.next_next_of_eof h
      rw [← hnext]
      exact ih (by rw [hnext]; exact h) t ht

/-- **The answers are the tokens in order**, and the end token from then on. -/
theorem reduceOption_answers {e : Token} (calls : List Call)
    (h : s.cursor.tokens.getLast? = some e) :
    (s.answers calls).1.reduceOption <+: s.cursor.tokens ++ List.replicate calls.length e := by
  induction calls generalizing s with
  | nil => simp
  | cons call calls ih =>
    rw [answers_cons, List.length_cons]
    rcases s.answer_cases call with ⟨-, -, heq⟩ | ⟨-, heq⟩
    · rw [heq, List.reduceOption_cons_of_none, List.replicate_succ', ← List.append_assoc]
      exact (ih h).trans (List.prefix_append _ _)
    · generalize (s.ended || _) = ended at heq
      rw [heq, List.reduceOption_cons_of_some]
      by_cases hend : s.cursor.next.1.kind = .eof
      · -- at the end of the text, the end token is read once more for each call
        have hnext := Cursor.next_next_of_eof hend
        have htokens : s.cursor.next.2.tokens = [s.cursor.next.1] := by
          rw [Cursor.tokens_of_eof (by rw [hnext]; exact hend), hnext]
        rw [Cursor.tokens_of_eof hend] at h ⊢
        obtain rfl : s.cursor.next.1 = e := Option.some.inj h
        have hrest := ih (s := ⟨s.cursor.next.2, ended⟩) (by rw [htokens]; rfl)
        rw [htokens] at hrest
        exact List.cons_prefix_cons.2 ⟨rfl, hrest⟩
      · rw [Cursor.tokens_of_ne_eof hend] at h ⊢
        rw [List.getLast?_cons_of_ne_nil (Cursor.ne_nil_tokens _)] at h
        rw [List.cons_append, List.replicate_succ', ← List.append_assoc]
        have hrest := ih (s := ⟨s.cursor.next.2, ended⟩) h
        exact List.cons_prefix_cons.2 ⟨rfl, hrest.trans (List.prefix_append _ _)⟩

/-- An answer is the end token. -/
def IsEnd (answer : Option (Option Token)) : Prop := ∃ t, answer = some (some t) ∧ t.kind = .eof

/-- **A call gives nothing exactly if it is one to hand out a token after the end token was handed
out**, by such a call or before the first one. -/
theorem answers_eq_none_iff (calls : List Call) (i : Nat) :
    (s.answers calls).1[i]? = some none ↔ calls[i]? = some .next ∧ (s.ended = true ∨
      ∃ j < i, calls[j]? = some .next ∧ IsEnd (s.answers calls).1[j]?) := by
  induction calls generalizing s i with
  | nil => simp
  | cons call calls ih =>
    rw [answers_cons]
    rcases s.answer_cases call with ⟨rfl, hended, heq⟩ | ⟨hfresh, heq⟩
    · rw [heq]
      cases i with
      | zero => simp [hended]
      | succ i => simp [ih, hended]
    · rw [heq]
      cases i with
      | zero =>
        have hnone : ¬ (call = .next ∧ s.ended = true) := fun h => by simp [hfresh h.1] at h
        simpa using hnone
      | succ i =>
        -- the flag of the next call says whether this call handed out the end token
        have hflag : (s.ended || (call == .next && s.cursor.next.1.kind == .eof)) = true ↔
            s.ended = true ∨ call = .next ∧ IsEnd (some (some s.cursor.next.1)) := by
          simp [IsEnd]
        simp only [List.getElem?_cons_succ, ih, hflag, Nat.exists_lt_succ_left,
          List.getElem?_cons_zero, Option.some.injEq, or_assoc]

/-- The scan of a text after some calls. -/
def called (source : String) (calls : List Call) : Scan := ((ofString source).answers calls).2

/-- **A token takes up a character or is the end token**, and behind the end token there is nothing
but that token. -/
theorem progress_of_answer {t : Token} (h : (s.answer call).1 = some t) :
    (t.kind ≠ .eof → ∃ taken, taken ≠ [] ∧
      s.cursor.rest = taken ++ (s.answer call).2.cursor.rest) ∧
    (t.kind = .eof → (s.answer call).2.cursor.rest = [] ∧
      ∀ later, ∀ u ∈ ((s.answer call).2.answers later).1.reduceOption, u.kind = .eof) := by
  rcases s.answer_cases call with ⟨-, -, heq⟩ | ⟨-, heq⟩
  · rw [heq] at h
    cases h
  · generalize (s.ended || _) = ended at heq
    rw [heq] at h ⊢
    obtain rfl : s.cursor.next.1 = t := Option.some.inj h
    refine ⟨fun hne => ?_, fun heof => ⟨?_, fun later u hu => ?_⟩⟩
    · exact ⟨s.cursor.consumed, Cursor.consumed_ne_nil hne, s.cursor.consumed_append.symm⟩
    · rw [Cursor.next_of_eof heof]
    · have hnext := Cursor.next_next_of_eof heof
      have hend : s.cursor.next.2.next.1.kind = .eof := by rw [hnext]; exact heof
      rw [eof_of_mem_answers (s := ⟨s.cursor.next.2, ended⟩) later hend u hu]
      exact hend

/-- **However the calls are mixed, the answers are the tokens of the text**, and the end token from
then on. There are at most as many tokens as characters, and the end token: wherever the calls have
led, the next token takes up a character unless it is the end token, which is found at the end of
the text only and for ever. A call gives nothing exactly if it is one to hand out a token after such
a call gave the end token. -/
theorem answers_stream (source : String) (calls : List Call) :
    (tokens source).length ≤ source.toList.length + 1 ∧
    (∀ call t, ((called source calls).answer call).1 = some t →
      (t.kind ≠ .eof → ∃ taken, taken ≠ [] ∧ (called source calls).cursor.rest =
        taken ++ ((called source calls).answer call).2.cursor.rest) ∧
      (t.kind = .eof → ((called source calls).answer call).2.cursor.rest = [] ∧
        ∀ later, ∀ u ∈ (((called source calls).answer call).2.answers later).1.reduceOption,
          u.kind = .eof)) ∧
    (∃ e, e.kind = .eof ∧ ((ofString source).answers calls).1.reduceOption <+:
      tokens source ++ List.replicate calls.length e) ∧
    ∀ i : Nat, ((ofString source).answers calls).1[i]? = some none ↔ calls[i]? = some .next ∧
      ∃ j < i, calls[j]? = some .next ∧ IsEnd ((ofString source).answers calls).1[j]? := by
  obtain ⟨ts, e, htokens, he, -⟩ := (Cursor.ofString source).tokens_eq_append
  have hlast : (Cursor.ofString source).tokens.getLast? = some e := by
    rw [htokens, List.getLast?_concat]
  refine ⟨Cursor.length_tokens_le _, fun call t ht => progress_of_answer ht,
    ⟨e, he, reduceOption_answers calls hlast⟩, fun i => ?_⟩
  simpa [ofString] using answers_eq_none_iff (s := ofString source) calls i

/-- A row of one cell, and the pipe at the end of the text. A token is read between two that are
handed out, and the end token is handed out, read and then not handed out any more. -/
theorem answers_stream_mixed :
    ((ofString "|a|").answers [.read, .next, .read, .next]).1 =
      [some ⟨.tableData, "a", 1⟩, some ⟨.eof, "", 1⟩, some ⟨.eof, "", 1⟩, none] ∧
    (∃ taken, taken ≠ [] ∧ (called "|a|" []).cursor.rest =
      taken ++ ((called "|a|" []).answer .read).2.cursor.rest) ∧
    ((called "|a|" [.read]).answer .next).2.cursor.rest = [] ∧
    ∃ j < 3, IsEnd ((ofString "|a|").answers [.read, .next, .read, .next]).1[j]? := by
  have hanswers : ((ofString "|a|").answers [.read, .next, .read, .next]).1 =
      [some ⟨.tableData, "a", 1⟩, some ⟨.eof, "", 1⟩, some ⟨.eof, "", 1⟩, none] := by
    decide +kernel
  have hcell : ((called "|a|" []).answer .read).1 = some ⟨.tableData, "a", 1⟩ := by
    decide +kernel
  have hpipe : ((called "|a|" [.read]).answer .next).1 = some ⟨.eof, "", 1⟩ := by decide +kernel
  refine ⟨hanswers, ?_, ?_, ?_⟩
  · exact ((answers_stream "|a|" []).2.1 .read _ hcell).1 (by decide)
  · exact (((answers_stream "|a|" [.read]).2.1 .next _ hpipe).2 rfl).1
  · obtain ⟨-, j, hj, -, hend⟩ :=
      ((answers_stream "|a|" [.read, .next, .read, .next]).2.2.2 3).1 (by rw [hanswers]; rfl)
    exact ⟨j, hj, hend⟩

end Scan

end FeatureDoc
