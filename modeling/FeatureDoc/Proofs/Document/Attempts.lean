import FeatureDoc.Proofs.Grammar.Acceptance
import Mathlib.Logic.Function.Iterate

/-!
# Reading again and again

A reader can be asked for a document any number of times. Each attempt goes on where the last one
stopped, anywhere in the text, so nothing that is said here relies on the start of a document.

* `Parsed.Located p ts` says that an error of `p` is on the line of a token of `ts`. It goes from
  the parts of a reader to the whole, as far as `FeatureSet.located_read`.
* `Reader.Sound source` is what an attempt preserves: the pending tokens are those of the text, and
  so are the lines of the errors. `Reader.Spent` are the readers that give nothing any more.
* `Reader.attempts` is the main statement: a document gives one feature or one error.
-/

namespace FeatureDoc

/-! ## The lines of errors -/

/-- An error stands on the line of a token in `ts`. -/
def Parsed.Located {α : Type} (p : Parsed α) (ts : List Token) : Prop :=
  ∀ failure, p = .error failure → ∃ rest, rest <:+ ts ∧ failure.error.line = (peek rest).line

namespace Parsed.Located

variable {α β : Type} {p : Parsed α} {ts ts' : List Token}

theorem ok (x : α × List Token) : Located (.ok x) ts := by rintro _ ⟨⟩

theorem of_peek {error : ParseError} {rest : List Token} (h : error.line = (peek ts).line) :
    Located (α := α) (.error ⟨error, rest⟩) ts := by
  rintro _ ⟨⟩
  exact ⟨ts, List.suffix_rfl, h⟩

theorem of_suffix (h : p.Located ts) (hs : ts <:+ ts') : p.Located ts' := by
  intro failure hp
  obtain ⟨rest, hrest, hline⟩ := h failure hp
  exact ⟨rest, hrest.trans hs, hline⟩

theorem andThen {S : α → List Token → Parsed β} (h : p.Located ts) (hp : p.rest <:+ ts)
    (hS : ∀ a rest, (S a rest).Located rest) : (p.andThen S).Located ts := by
  intro failure hf
  rcases Parsed.andThen_eq_error.1 hf with hf | ⟨a, rest, ha, hf⟩
  · exact h failure hf
  · exact (hS a rest).of_suffix (Parsed.suffix_of_eq_ok hp ha) failure hf

end Parsed.Located

theorem Repeats.located {β γ : Type} {L : List Token → Parsed γ} {R : List Token → Parsed β}
    {f : β → γ → γ} {z : γ} {C : Kind → Prop} (h : Repeats L R f z C)
    (hR : ∀ ts, (R ts).Located ts) (hrest : ∀ ts, (R ts).rest <:+ ts) (ts : List Token) :
    (L ts).Located ts := by
  induction ts using h.induction with
  | step ts ih =>
    intro failure hL
    obtain ⟨hk, hf | ⟨b, mid, hb, hf⟩⟩ := h.eq_error hL
    · exact hR ts failure hf
    · exact (ih b mid hk hb).of_suffix (Parsed.suffix_of_eq_ok (hrest ts) hb) failure hf

theorem located_take {C : Kind → Prop} [DecidablePred C] {error : Token → ParseError}
    (herror : ∀ t, (error t).line = t.line) (ts : List Token) : (take C error ts).Located ts := by
  unfold take
  split
  · exact .ok _
  · exact .of_peek (herror _)

theorem located_refuse {α : Type} (k : Kind) (ts : List Token) :
    (refuse (α := α) k ts).Located ts := .of_peek rfl

theorem located_expect (k : Kind) (ts : List Token) : (expect k ts).Located ts := by
  unfold expect
  split
  · exact .ok _
  · exact located_refuse k ts

theorem located_readHeading (ts : List Token) : (readHeading ts).Located ts := by
  rw [readHeading_eq]
  exact (located_expect _ ts).andThen (rest_expect_suffix _ ts) fun _ _ => .ok _

theorem located_rowReader (n : Nat) (ts : List Token) : (rowReader n ts).Located ts := by
  have hrow : (Table.readRow ts).Located ts := by
    unfold Table.readRow
    dsimp only
    split
    · exact .ok _
    · exact (located_refuse _ _).of_suffix (List.dropWhile_suffix _)
  unfold rowReader
  split
  · intro failure hf
    rcases Parsed.andThen_eq_error.1 hf with hf | ⟨row, rest, -, hf⟩
    · exact hrow failure hf
    · split at hf
      · cases hf
      · cases hf
        exact ⟨ts, List.suffix_rfl, rfl⟩
  · exact .of_peek rfl

theorem located_tableReader (ts : List Token) : (tableReader ts).Located ts := by
  have hrest : ∀ n ts, (rowReader n ts).rest <:+ ts := fun n ts =>
    (rest_rowReader_suffix n ts).trans (List.dropWhile_suffix _)
  rw [tableReader_eq, tableOfWidth]
  split
  · exact (located_rowReader _ ts).andThen (hrest _ ts) fun row mid =>
      ((readRows_repeats _).located (located_rowReader _) (hrest _) mid).andThen
        (Table.rest_readRows_suffix _ mid) fun _ _ => .ok _
  · exact located_refuse _ ts

theorem StepText.located_readLine (s : StepText) (ts : List Token) :
    (s.readLine ts).Located ts := by
  induction ts generalizing s with
  | nil => exact .ok _
  | cons t ts ih =>
    unfold readLine
    split
    · exact .ok _
    · split
      · exact (ih _).of_suffix (List.suffix_cons t ts)
      · next e hadd => exact .of_peek (by rw [error_of_add hadd]; rfl)

namespace Step

theorem located_read (keyword : Token) (ts : List Token) : (read keyword ts).Located ts := by
  have htable : ∀ ts, (readTable? ts).Located ts := by
    intro ts
    rw [readTable?_eq]
    split
    · exact (located_tableReader ts).andThen (reads_tableReader.rest_suffix ts) fun _ _ => .ok _
    · exact .ok _
  exact (StepText.located_readLine _ ts).andThen (StepText.rest_readLine_suffix _ ts)
    fun body mid => ((htable _).andThen (rest_readTable?_suffix _) fun _ _ => .ok _).of_suffix
      (skipNewline_suffix mid)

theorem located_readRound {error : Token → ParseError} (herror : ∀ t, (error t).line = t.line)
    (ts : List Token) : (readRound error ts).Located ts :=
  (located_take herror ts).andThen (rest_take_suffix ts) fun keyword mid =>
    (located_read keyword mid).andThen (rest_read_suffix keyword mid) fun _ _ => .ok _

theorem rest_readRound_suffix (error : Token → ParseError) (ts : List Token) :
    (readRound error ts).rest <:+ ts :=
  Parsed.rest_andThen_suffix (rest_take_suffix ts) fun keyword mid =>
    Parsed.rest_andThen_suffix (rest_read_suffix keyword mid) fun _ rest => skipTrivia_suffix rest

theorem located_readBlockOf (owner : StepOwner) (ts : List Token) :
    (readBlockOf owner ts).Located ts := by
  rw [readBlockOf_eq]
  refine Parsed.Located.of_suffix ?_ (skipTrivia_suffix ts)
  refine (located_readRound (fun _ => rfl) _).andThen (rest_readRound_suffix _ _) fun _ mid => ?_
  exact ((readAll_repeats (ParseError.unexpected .eof)).located
    (located_readRound fun _ => rfl) (rest_readRound_suffix _) mid).andThen
    (rest_readAll_suffix mid) fun _ _ => .ok _

end Step

namespace Entry

theorem located_readExamplesFrom (ts : List Token) : (readExamplesFrom ts).Located ts := by
  refine (located_expect _ ts).andThen (rest_expect_suffix _ ts) fun _ r₁ => ?_
  refine (located_expect _ r₁).andThen (rest_expect_suffix _ r₁) fun _ r₂ => ?_
  refine (located_expect _ r₂).andThen (rest_expect_suffix _ r₂) fun _ r₃ => ?_
  exact (located_tableReader _).of_suffix (skipTrivia_suffix r₃)

theorem located_readKeyworded (tags : List String) (ts : List Token) :
    (readKeyworded tags ts).Located ts := by
  refine (located_take (fun _ => rfl) ts).andThen (rest_take_suffix ts) fun t r₁ => ?_
  split
  · refine (located_take (fun _ => rfl) r₁).andThen (rest_take_suffix r₁) fun _ r₂ => ?_
    refine (located_readHeading r₂).andThen (rest_readHeading_suffix r₂) fun _ r₃ => ?_
    refine (Step.located_readBlockOf _ r₃).andThen (Step.rest_readBlockOf_suffix _ r₃)
      fun _ r₄ => ?_
    exact (located_readExamplesFrom r₄).andThen (reads_readExamplesFrom.rest_suffix r₄)
      fun _ _ => .ok _
  · exact (located_readHeading r₁).andThen (rest_readHeading_suffix r₁) fun _ r₂ =>
      (Step.located_readBlockOf _ r₂).andThen (Step.rest_readBlockOf_suffix _ r₂) fun _ _ => .ok _

theorem located_readRound (ts : List Token) : (readRound ts).Located ts := by
  refine Parsed.Located.andThen ?_ (reads_readOpenTags.rest_suffix ts) located_readKeyworded
  unfold readOpenTags
  split
  · exact (located_take (fun _ => rfl) ts).andThen (rest_take_suffix ts) fun _ _ => .ok _
  · exact .ok _

end Entry

namespace Feature

theorem located_readBackground? (ts : List Token) : (readBackground? ts).Located ts := by
  rw [readBackground?_eq]
  split
  · exact (located_take (fun _ => rfl) ts).andThen (rest_take_suffix ts) fun _ r₁ =>
      (located_readHeading r₁).andThen (rest_readHeading_suffix r₁) fun _ r₂ =>
        (Step.located_readBlockOf _ r₂).andThen (Step.rest_readBlockOf_suffix _ r₂) fun _ _ => .ok _
  · exact .ok _

theorem located_read (ts : List Token) : (read ts).Located ts := by
  rw [read_eq, Parsed.ok_andThen]
  refine Parsed.Located.of_suffix ?_ (readTags_suffix ts)
  refine (located_take (fun _ => rfl) _).andThen (rest_take_suffix _) fun keyword r₁ => ?_
  refine (located_readHeading r₁).andThen (rest_readHeading_suffix r₁) fun title r₂ => ?_
  rw [Parsed.ok_andThen]
  refine Parsed.Located.of_suffix ?_ (reads_readDescription.rest_suffix r₂)
  refine (located_readBackground? _).andThen (reads_readBackground?.rest_suffix _) fun _ r₃ => ?_
  exact (Entry.readAll_repeats.located Entry.located_readRound Entry.reads_readRound.rest_suffix
    r₃).andThen (Entry.reads_readAll.rest_suffix r₃) fun _ _ => .ok _

end Feature

namespace FeatureSet

/-- **An error stands on the line of a token of the document.** -/
theorem located_read (ts : List Token) : (read ts).Located ts := by
  rw [read_eq]
  refine (Feature.located_read ts).andThen (Feature.reads_read.rest_suffix ts) fun _ rest => ?_
  split
  · exact .ok _
  · exact .of_peek rfl

theorem rest_read_suffix (ts : List Token) : (read ts).rest <:+ ts := by
  rw [read_eq]
  refine Parsed.rest_andThen_suffix (Feature.reads_read.rest_suffix ts) fun _ rest => ?_
  split
  · exact List.suffix_rfl
  · exact List.suffix_rfl

/-- A document that was read is one feature, and only the end of the text is left. -/
theorem cases_of_read {ts rest : List Token} {set : FeatureSet} (h : read ts = .ok (set, rest)) :
    (∃ feature, set = ⟨[feature]⟩) ∧ (peek rest).kind = .eof := by
  rw [read_eq] at h
  obtain ⟨feature, mid, -, hend⟩ := Parsed.andThen_eq_ok.1 h
  split at hend
  · next heof =>
    cases hend
    exact ⟨⟨feature, rfl⟩, heof⟩
  · cases hend

/-- There is no document at the end of the text. -/
theorem read_of_eof {ts : List Token} (h : (peek ts).kind = .eof) :
    read ts = refuse .feature ts := by
  have htrivia : (peek ts).kind.isTrivia = false := by rw [h]; rfl
  unfold read
  simp [skipTrivia_eq_self htrivia, h]

end FeatureSet

/-! ## Attempts -/

namespace Reader

variable {source : String} {r : Reader}

/-- What every attempt at a text preserves. -/
structure Sound (source : String) (r : Reader) : Prop where
  /-- The pending tokens are an end of those of the text. -/
  pending : r.pending <:+ FeatureDoc.tokens source
  /-- Every error stands on a line of the text. -/
  line : ∀ e ∈ r.errors, 1 ≤ e.line ∧ e.line ≤ 1 + source.toList.count '\n'

/-- There is nothing to get from the reader any more. -/
def Spent (r : Reader) : Prop := r.errors ≠ [] ∨ (peek r.pending).kind = .eof

/-- The two outcomes of an attempt. -/
theorem read_cases (r : Reader) :
    (∃ set rest, FeatureSet.read r.pending = .ok (set, rest) ∧
      r.read = (if r.errors.isEmpty then some set else none, ⟨rest, r.errors⟩)) ∨
    ∃ e rest, FeatureSet.read r.pending = .error ⟨e, rest⟩ ∧
      r.read = (none, ⟨rest, r.errors ++ [e]⟩) := by
  unfold read
  rcases FeatureSet.read r.pending with ⟨e, rest⟩ | ⟨set, rest⟩
  · exact Or.inr ⟨e, rest, rfl, rfl⟩
  · exact Or.inl ⟨set, rest, rfl, rfl⟩

theorem line_peek_of_suffix {rest : List Token} (h : rest <:+ FeatureDoc.tokens source) :
    1 ≤ (peek rest).line ∧ (peek rest).line ≤ 1 + source.toList.count '\n' := by
  rcases rest with _ | ⟨t, rest⟩
  · exact ⟨le_rfl, Nat.le_add_right 1 _⟩
  · exact Cursor.line_of_mem_tokens (c := .ofString source) (h.subset List.mem_cons_self)

theorem Sound.ofString (source : String) : Sound source (.ofString source) :=
  ⟨List.suffix_rfl, fun _ he => absurd he List.not_mem_nil⟩

theorem Sound.read (h : Sound source r) : Sound source r.read.2 := by
  have hrest := (FeatureSet.rest_read_suffix r.pending).trans h.pending
  rcases r.read_cases with ⟨set, rest, hread, heq⟩ | ⟨e, rest, hread, heq⟩
  · rw [hread] at hrest
    rw [heq]
    exact ⟨hrest, h.line⟩
  · rw [hread] at hrest
    obtain ⟨at', hat, hline⟩ := FeatureSet.located_read r.pending _ hread
    rw [heq]
    refine ⟨hrest, fun e' he' => ?_⟩
    rcases List.mem_append.1 he' with he' | he'
    · exact h.line e' he'
    · rw [List.mem_singleton.1 he', show e.line = (peek at').line from hline]
      exact line_peek_of_suffix (hat.trans h.pending)

/-- An attempt leaves a spent reader. -/
theorem Spent.of_read (r : Reader) : Spent r.read.2 := by
  rcases r.read_cases with ⟨set, rest, hread, heq⟩ | ⟨e, rest, -, heq⟩
  · rw [heq]
    exact Or.inr (FeatureSet.cases_of_read hread).2
  · rw [heq]
    exact Or.inl (by simp)

theorem Spent.fst_read (h : Spent r) : r.read.1 = none := by
  rcases h with h | h
  · rcases r.read_cases with ⟨set, rest, -, heq⟩ | ⟨e, rest, -, heq⟩
    · rw [heq]
      simp [h]
    · rw [heq]
  · unfold Reader.read
    rw [FeatureSet.read_of_eof h]
    rfl

/-- At the end of the text, an attempt misses the keyword and stays where it is. -/
theorem snd_read_of_eof (h : (peek r.pending).kind = .eof) :
    r.read.2 = ⟨r.pending, r.errors ++ [.unexpected .feature (peek r.pending)]⟩ := by
  unfold Reader.read
  rw [FeatureSet.read_of_eof h]
  rfl

/-- The reader after a number of attempts. -/
def after (source : String) (k : Nat) : Reader := (fun r => r.read.2)^[k] (.ofString source)

theorem after_succ (source : String) (k : Nat) :
    after source (k + 1) = (after source k).read.2 := Function.iterate_succ_apply' _ _ _

theorem sound_after (source : String) (k : Nat) : Sound source (after source k) := by
  induction k with
  | zero => exact .ofString source
  | succ k ih => exact after_succ source k ▸ ih.read

/-- Once the end of the text was reached, it stays so. -/
theorem eof_after_succ (h : (peek (after source 1).pending).kind = .eof) (k : Nat) :
    (peek (after source (k + 1)).pending).kind = .eof := by
  induction k with
  | zero => exact h
  | succ k ih =>
    rw [after_succ, snd_read_of_eof ih]
    exact ih

/-- An attempt adds at most one error. -/
theorem errors_after_succ (source : String) (k : Nat) :
    (after source (k + 1)).errors = (after source k).errors ∨
      ∃ e, (after source (k + 1)).errors = (after source k).errors ++ [e] := by
  rw [after_succ]
  rcases (after source k).read_cases with ⟨set, rest, -, heq⟩ | ⟨e, rest, -, heq⟩
  · exact Or.inl (by rw [heq])
  · exact Or.inr ⟨e, by rw [heq]⟩

/-- Only the first attempt can give a document. -/
theorem fst_read_after_succ (source : String) (k : Nat) :
    (after source (k + 1)).read.1 = none := by
  rw [after_succ]
  exact (Spent.of_read _).fst_read

/-- The first attempt gives a document if and only if it adds no error. -/
theorem isSome_first_iff (source : String) :
    (after source 0).read.1.isSome ↔ (after source 1).errors = [] := by
  rw [after_succ]
  rcases (after source 0).read_cases with ⟨set, rest, -, heq⟩ | ⟨e, rest, -, heq⟩
  · rw [heq]
    exact ⟨fun _ => rfl, fun _ => rfl⟩
  · rw [heq]
    simp

/-- A document is one feature, and the end of the text has been reached with it. -/
theorem cases_of_first {set : FeatureSet}
    (h : (after source 0).read.1 = some set) :
    (∃ feature, set = ⟨[feature]⟩) ∧ (peek (after source 1).pending).kind = .eof := by
  rw [after_succ]
  rcases (after source 0).read_cases with ⟨set', rest, hread, heq⟩ | ⟨e, rest, -, heq⟩
  · rw [heq] at h ⊢
    obtain rfl : set' = set := Option.some.inj h
    exact FeatureSet.cases_of_read hread
  · rw [heq] at h
    cases h

/-- At the end of the text, every attempt misses another feature. -/
theorem errors_of_eof (h : (peek (after source 1).pending).kind = .eof) (k : Nat) :
    ∃ literal line, (after source (k + 2)).errors =
      (after source (k + 1)).errors ++ [.unexpectedToken .feature .eof literal line] := by
  have hk := eof_after_succ h k
  rw [after_succ source (k + 1), snd_read_of_eof hk, ParseError.unexpected, hk]
  exact ⟨_, _, rfl⟩

theorem parse_cases (source : String) :
    (∃ feature, parse source = .ok ⟨[feature]⟩) ∨ ∃ e, parse source = .error ⟨[e]⟩ := by
  rcases (Reader.ofString source).read_cases with ⟨set, rest, hread, -⟩ | ⟨e, rest, hread, -⟩
  · obtain ⟨⟨feature, rfl⟩, -⟩ := FeatureSet.cases_of_read hread
    exact Or.inl ⟨feature, parse_eq_ok_iff.2 ⟨rest, hread⟩⟩
  · exact Or.inr ⟨e, parse_eq_error_iff.2 ⟨e, rest, hread, rfl⟩⟩

/-- **A document gives one feature or one error**, however often it is asked for: each attempt adds
at most one error, only the first one can give a document, it does so if and only if it adds none,
and from then on all that is missed is another feature at the end of the text. -/
theorem attempts (source : String) :
    (∀ k, (after source (k + 1)).errors = (after source k).errors ∨
      ∃ e, (after source (k + 1)).errors = (after source k).errors ++ [e]) ∧
    (∀ k, (after source (k + 1)).read.1 = none) ∧
    ((after source 0).read.1.isSome ↔ (after source 1).errors = []) ∧
    (∀ set, (after source 0).read.1 = some set → (∃ feature, set = ⟨[feature]⟩) ∧
      ∀ k, ∃ literal line, (after source (k + 2)).errors =
        (after source (k + 1)).errors ++ [.unexpectedToken .feature .eof literal line]) ∧
    ((∃ feature, parse source = .ok ⟨[feature]⟩) ∨ ∃ e, parse source = .error ⟨[e]⟩) ∧
    ∀ k, ∀ e ∈ (after source k).errors, 1 ≤ e.line ∧ e.line ≤ 1 + source.toList.count '\n' := by
  refine ⟨errors_after_succ source, fst_read_after_succ source, isSome_first_iff source,
    fun set hset => ?_, parse_cases source, fun k => (sound_after source k).line⟩
  obtain ⟨hone, heof⟩ := cases_of_first hset
  exact ⟨hone, errors_of_eof heof⟩

/-- A feature without scenarios, asked for three times. -/
theorem attempts_feature_only :
    (after "Feature: f\n" 0).read.1 = some ⟨[⟨"f", 1, [], [], none, []⟩]⟩ ∧
      (after "Feature: f\n" 1).read.1 = none ∧
      (∃ literal line, (after "Feature: f\n" 2).errors =
        (after "Feature: f\n" 1).errors ++ [.unexpectedToken .feature .eof literal line]) ∧
      (.unexpectedToken .feature .eof "" 2 ∈ (after "Feature: f\n" 3).errors ∧ 2 ≤ 1 + 1) := by
  have hset : (after "Feature: f\n" 0).read.1 = some ⟨[⟨"f", 1, [], [], none, []⟩]⟩ := by
    decide +kernel
  have herror : .unexpectedToken .feature .eof "" 2 ∈ (after "Feature: f\n" 3).errors := by
    decide +kernel
  obtain ⟨-, hnone, -, hlater, -, hline⟩ := attempts "Feature: f\n"
  exact ⟨hset, hnone 0, (hlater _ hset).2 0, herror, (hline 3 _ herror).2⟩

end Reader

end FeatureDoc
