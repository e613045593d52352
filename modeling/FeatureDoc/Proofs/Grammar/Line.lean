import FeatureDoc.Proofs.Grammar.Document
import FeatureDoc.Proofs.Grammar.Reader
import FeatureDoc.Feature.Read

/-!
# Readers of runs and lines

The smallest readers of a document take a run of tokens of one sort, or a line with its end.

* `reads_takeAll` is the law for runs; line ends and comments (`reads_skipTrivia`) and tags
  (`reads_readTags`) are such runs.
* `ReadsLine R P` says that `R` reads a line that satisfies `P`, together with its end, and that no
  error of `R` names a token. `ReadsLine.reads` makes it a law of the grammar.
* The title in a heading (`readsLine_title`) and the line of a step (`readsLine_step`) are read that
  way.
-/

namespace FeatureDoc

open FeatureDoc.Part

/-! ## Runs of tokens -/

/-- Consume the tokens of a kind in `C` that come next. -/
def takeAll (C : Kind → Bool) (ts : List Token) : Parsed (List Token) :=
  .ok (ts.takeWhile fun t => C t.kind, ts.dropWhile fun t => C t.kind)

theorem takeAll_repeats {C : Kind → Bool} (hC : C .eof = false) (error : Token → ParseError) :
    Repeats (takeAll C) (take (C · = true) error) List.cons [] (C · = true) where
  more := by
    intro ts h
    rcases ts with _ | ⟨t, ts⟩
    · exact absurd h (by simp [peek, hC])
    · have ht : C t.kind = true := h
      simp [takeAll, take, ht, Parsed.andThen]
  done := by
    intro ts h
    rcases ts with _ | ⟨t, ts⟩
    · rfl
    · simp only [peek_cons] at h
      simp [takeAll, h]
  rest_lt := by
    intro ts b rest h hb
    obtain ⟨-, rfl⟩ := (take_eq_ok (by simp [hC])).1 hb
    simp

/-- **A run of tokens is read** up to the first token of another kind. -/
theorem reads_takeAll {C : Kind → Bool} {k : Kind} (hk : C k = true) (hC : C .eof = false) :
    Reads (takeAll C) (token (C · = true)).star (C · = false) := by
  have hR : Reads (take (C · = true) (ParseError.unexpected k)) (token (C · = true))
      fun _ => True :=
    Reads.take hk (by simp [hC]) fun _ => rfl
  exact Reads.loop (takeAll_repeats hC _) hR (Part.Opens.token fun _ h => h)
    (fun _ _ => trivial) fun k hk => by simp [hk]

theorem reads_skipTrivia :
    Reads (fun ts => .ok ((), skipTrivia ts)) Grammar.trivia.star (·.isTrivia = false) :=
  (reads_takeAll (C := Kind.isTrivia) (k := .newline) rfl rfl).map fun _ => ()

/-- A tag, or what may stand before it. -/
def Kind.isTagOrTrivia (k : Kind) : Bool := k.isTrivia || k == .tag

theorem readTags_eq (ts : List Token) : readTags ts =
    (((ts.takeWhile (·.kind.isTagOrTrivia)).filter (·.kind == .tag)).map Token.literal,
      ts.dropWhile (·.kind.isTagOrTrivia)) := by
  induction ts with
  | nil => rfl
  | cons t ts ih =>
    rw [readTags, ih]
    by_cases htrivia : t.kind.isTrivia = true
    · have hne : t.kind ≠ .tag := fun h => by simp [h, Kind.isTrivia] at htrivia
      simp [Kind.isTagOrTrivia, htrivia, hne]
    · by_cases htag : t.kind = .tag
      · simp [Kind.isTagOrTrivia, htag, Kind.isTrivia]
      · simp [Kind.isTagOrTrivia, htrivia, htag]

/-- Tags with what stands around them are a run of tokens. -/
theorem Grammar.tags_eq : Grammar.tags = (token (·.isTagOrTrivia = true)).star := by
  have htrivia : ∀ ts rest, Grammar.trivia ts rest → token (·.isTagOrTrivia = true) ts rest := by
    rintro _ _ ⟨t, ht, rfl⟩
    exact ⟨t, by simp [Kind.isTagOrTrivia, ht], rfl⟩
  ext ts rest
  refine ⟨?_, fun h => ?_⟩
  · rintro ⟨mid, htags, htail⟩
    refine Relation.ReflTransGen.trans ?_ (Relation.ReflTransGen.mono htrivia _ _ htail)
    clear htail
    induction htags with
    | refl => exact Relation.ReflTransGen.refl
    | tail _ hround ih =>
      obtain ⟨_, hskip, t, ht, rfl⟩ := hround
      exact (ih.trans (Relation.ReflTransGen.mono htrivia _ _ hskip)).tail
        ⟨t, by rw [ht]; rfl, rfl⟩
  · induction h using Relation.ReflTransGen.head_induction_on with
    | refl => exact ⟨rest, star_nil _ rest, star_nil _ rest⟩
    | head hround _ ih =>
      obtain ⟨t, ht, rfl⟩ := hround
      obtain ⟨mid, htags, htail⟩ := ih
      rw [Kind.isTagOrTrivia, Bool.or_eq_true, beq_iff_eq] at ht
      rcases ht with ht | ht
      · -- what stands before a tag goes to the round of that tag, or to the end
        rcases Relation.ReflTransGen.cases_head htags with rfl | ⟨after, hfirst, hmore⟩
        · exact ⟨_, star_nil _ _, star_cons _ ⟨t, ht, rfl⟩ htail⟩
        · obtain ⟨before, hskip, htag⟩ := hfirst
          exact ⟨mid, star_cons _ ⟨before, star_cons _ ⟨t, ht, rfl⟩ hskip, htag⟩ hmore, htail⟩
      · exact ⟨mid, star_cons _ ⟨_, star_nil _ _, t, ht, rfl⟩ htags, htail⟩

theorem reads_readTags :
    Reads (fun ts => .ok (readTags ts)) Grammar.tags (·.isTagOrTrivia = false) := by
  have h := (reads_takeAll (C := Kind.isTagOrTrivia) (k := .tag) rfl rfl).map fun run =>
    (run.filter (·.kind == .tag)).map Token.literal
  rw [← Grammar.tags_eq] at h
  simpa only [readTags_eq, takeAll, Parsed.andThen] using h

/-! ## Lines -/

theorem endsLine_of_mem_takeLine {ts : List Token} {t : Token} (h : t ∈ takeLine ts) :
    t.kind.endsLine = false := by
  simpa using List.mem_takeWhile_imp h

theorem takeLine_append {l rest : List Token} (hl : ∀ t ∈ l, t.kind.endsLine = false)
    (h : (peek rest).kind.endsLine = true) : takeLine (l ++ rest) = l := by
  induction l with
  | nil =>
    rcases rest with _ | ⟨t, rest⟩
    · rfl
    · exact takeLine_cons_of_endsLine h rest
  | cons t l ih =>
    rw [List.forall_mem_cons] at hl
    rw [List.cons_append, takeLine_cons hl.1, ih hl.2]

theorem dropLine_append {l rest : List Token} (hl : ∀ t ∈ l, t.kind.endsLine = false)
    (h : (peek rest).kind.endsLine = true) : dropLine (l ++ rest) = rest := by
  have hsplit := takeLine_append_dropLine (l ++ rest)
  rw [takeLine_append hl h] at hsplit
  exact List.append_cancel_left hsplit

theorem skipNewline_cons_of_newline {t : Token} (h : t.kind = .newline) (ts : List Token) :
    skipNewline (t :: ts) = ts := if_pos h

theorem skipNewline_of_ne_newline {ts : List Token} (h : (peek ts).kind ≠ .newline) :
    skipNewline ts = ts := if_neg h

namespace Grammar

variable {P : List Token → Prop} {ts rest : List Token}

theorem lineEnd_iff :
    lineEnd ts rest ↔ (peek ts).kind.endsLine = true ∧ rest = skipNewline ts := by
  rw [Kind.endsLine_iff]
  constructor
  · rintro (⟨t, ht, rfl⟩ | ⟨rfl, heof⟩)
    · exact ⟨Or.inl ht, (skipNewline_cons_of_newline ht rest).symm⟩
    · exact ⟨Or.inr heof, (skipNewline_of_ne_newline (by simp [heof])).symm⟩
  · rintro ⟨h | h, rfl⟩
    · rcases ts with _ | ⟨t, ts⟩
      · cases h
      · exact Or.inl ⟨t, h, by rw [skipNewline_cons_of_newline (t := t) h]⟩
    · rw [skipNewline_of_ne_newline (by simp [h])]
      exact Or.inr ⟨rfl, h⟩

/-- A line and its end are found in one way only. -/
theorem line_mul_lineEnd_iff :
    (line P * lineEnd) ts rest ↔ P (takeLine ts) ∧ rest = skipNewline (dropLine ts) := by
  constructor
  · rintro ⟨mid, ⟨l, rfl, hl, hmid, hP⟩, hend⟩
    obtain ⟨-, rfl⟩ := lineEnd_iff.1 hend
    rw [takeLine_append hl hmid, dropLine_append hl hmid]
    exact ⟨hP, rfl⟩
  · rintro ⟨hP, rfl⟩
    refine ⟨dropLine ts, ⟨takeLine ts, (takeLine_append_dropLine ts).symm,
      fun _ => endsLine_of_mem_takeLine, endsLine_peek_dropLine ts, hP⟩, ?_⟩
    exact lineEnd_iff.2 ⟨endsLine_peek_dropLine ts, rfl⟩

end Grammar

/-- The tokens of a line with its end: either the end was consumed, or the text ends there. -/
theorem line_split {xs rest : List Token} (h : rest = skipNewline (dropLine (xs ++ rest))) :
    (∃ l n, xs = l ++ [n] ∧ (∀ t ∈ l, t.kind.endsLine = false) ∧ n.kind = .newline) ∨
      (∀ t ∈ xs, t.kind.endsLine = false) ∧ (peek rest).kind = .eof := by
  have hsplit := takeLine_append_dropLine (xs ++ rest)
  rcases Kind.endsLine_iff.1 (endsLine_peek_dropLine (xs ++ rest)) with hk | hk
  · rcases hdrop : dropLine (xs ++ rest) with _ | ⟨n, rest'⟩
    · rw [hdrop] at hk
      cases hk
    · rw [hdrop, peek_cons] at hk
      rw [hdrop, skipNewline_cons_of_newline hk] at h
      subst h
      rw [hdrop, ← List.singleton_append, ← List.append_assoc] at hsplit
      exact Or.inl ⟨_, n, (List.append_cancel_right hsplit).symm,
        fun _ => endsLine_of_mem_takeLine, hk⟩
  · rw [skipNewline_of_ne_newline (by simp [hk])] at h
    rw [← h] at hsplit hk
    have hxs := List.append_cancel_right hsplit
    exact Or.inr ⟨fun t ht => endsLine_of_mem_takeLine (hxs ▸ ht), hk⟩

/-- `R` reads a line that satisfies `P`, and its end. -/
structure ReadsLine {α : Type} (R : List Token → Parsed α) (P : List Token → Prop) : Prop where
  /-- There is such a line. -/
  inhabited : ∃ l, (∀ t ∈ l, t.kind.endsLine = false) ∧ P l
  /-- What is left is an end of the tokens. -/
  rest_suffix : ∀ ts, (R ts).rest <:+ ts
  /-- The line is read to its end. -/
  rest_eq : ∀ {ts a rest}, R ts = .ok (a, rest) → rest = skipNewline (dropLine ts)
  /-- A line that is accepted satisfies `P`. -/
  sound : ∀ {ts a rest}, (∀ t ∈ takeLine ts, t.Spelled) → R ts = .ok (a, rest) → P (takeLine ts)
  /-- A line that satisfies `P` is accepted. -/
  complete : ∀ {ts}, P (takeLine ts) → ∃ a rest, R ts = .ok (a, rest)
  /-- The outcome depends on the line and on the token that ends it. -/
  ahead : ∀ {l t m a}, (∀ u ∈ l, u.kind.endsLine = false) → t.kind.endsLine = true →
    R (l ++ t :: m) = .ok (a, skipNewline (t :: m)) →
    ∀ m', R (l ++ t :: m') = .ok (a, skipNewline (t :: m'))
  /-- An error names no token. -/
  found?_eq_none : ∀ {ts failure}, Stream ts → R ts = .error failure → failure.error.found? = none

namespace ReadsLine

variable {α : Type} {R : List Token → Parsed α} {P : List Token → Prop}

theorem line_of_ok (h : ReadsLine R P) {xs rest : List Token} {a : α}
    (hxs : ∀ t ∈ xs, t.Spelled) (hR : R (xs ++ rest) = .ok (a, rest)) :
    (∃ l n, xs = l ++ [n] ∧ (∀ t ∈ l, t.kind.endsLine = false) ∧ n.kind = .newline ∧ P l) ∨
      (∀ t ∈ xs, t.kind.endsLine = false) ∧ (peek rest).kind = .eof ∧ P xs := by
  rcases line_split (h.rest_eq hR) with ⟨l, n, rfl, hl, hn⟩ | ⟨hl, hrest⟩
  · have hline : takeLine (l ++ [n] ++ rest) = l := by
      rw [List.append_assoc]
      exact takeLine_append hl (by simp [hn, Kind.endsLine])
    have hP := h.sound (by rw [hline]; exact fun t ht => hxs t (List.mem_append_left _ ht)) hR
    exact Or.inl ⟨l, n, rfl, hl, hn, hline ▸ hP⟩
  · have hline : takeLine (xs ++ rest) = xs := takeLine_append hl (by rw [hrest]; rfl)
    have hP := h.sound (by rw [hline]; exact hxs) hR
    exact Or.inr ⟨hl, hrest, hline ▸ hP⟩

theorem completes_line {l : List Token} (hl : ∀ t ∈ l, t.kind.endsLine = false) (hP : P l)
    {n : Token} (hn : n.kind = .newline) (rest : List Token) :
    (Grammar.line P * Grammar.lineEnd) (l ++ [n] ++ rest) rest := by
  have hends : (peek (n :: rest)).kind.endsLine = true := by simp [hn, Kind.endsLine]
  rw [List.append_assoc, List.singleton_append, Grammar.line_mul_lineEnd_iff,
    takeLine_append hl hends, dropLine_append hl hends, skipNewline_cons_of_newline hn]
  exact ⟨hP, rfl⟩

/-- **A reader of lines reads its part of the grammar**, whatever comes after the line. -/
theorem reads (h : ReadsLine R P) {next : Kind → Prop} :
    Reads R (Grammar.line P * Grammar.lineEnd) next where
  inhabited := by
    obtain ⟨l, hl, hP⟩ := h.inhabited
    exact ⟨l ++ [⟨.newline, "", 1⟩], fun rest => completes_line hl hP rfl rest⟩
  rest_suffix := h.rest_suffix
  sound := by
    intro xs rest a hxs hR
    refine Grammar.line_mul_lineEnd_iff.2 ⟨?_, h.rest_eq hR⟩
    rcases h.line_of_ok hxs hR with ⟨l, n, rfl, hl, hn, hP⟩ | ⟨hl, hrest, hP⟩
    · rw [List.append_assoc, takeLine_append hl (by simp [hn, Kind.endsLine])]
      exact hP
    · rw [takeLine_append hl (by rw [hrest]; rfl)]
      exact hP
  closes := by
    intro xs rest a hxs hR
    rcases h.line_of_ok hxs hR with ⟨l, n, rfl, hl, hn, hP⟩ | ⟨hl, -, hP⟩
    · exact ⟨[], fun rest => by rw [List.append_nil]; exact completes_line hl hP hn rest⟩
    · exact ⟨[⟨.newline, "", 1⟩], fun rest => completes_line hl hP rfl rest⟩
  ahead := by
    intro xs t m a hR m'
    rcases line_split (h.rest_eq hR) with ⟨l, n, rfl, hl, hn⟩ | ⟨hl, hrest⟩
    · rw [List.append_assoc, List.singleton_append] at hR ⊢
      have hskip := skipNewline_cons_of_newline hn
      have hends : n.kind.endsLine = true := by rw [hn]; rfl
      have := h.ahead hl hends (by rw [hskip]; exact hR) (t :: m')
      rwa [hskip] at this
    · rw [peek_cons] at hrest
      have hskip : ∀ m, skipNewline (t :: m) = t :: m := fun m =>
        skipNewline_of_ne_newline (by simp [hrest])
      have := h.ahead hl (by rw [hrest]; rfl) (by rw [hskip]; exact hR) m'
      rwa [hskip] at this
  complete := by
    intro ts rest hp _
    obtain ⟨hP, rfl⟩ := Grammar.line_mul_lineEnd_iff.1 hp
    obtain ⟨a, rest, hR⟩ := h.complete hP
    exact ⟨a, h.rest_eq hR ▸ hR⟩
  names := by
    intro ts e rest x hts hR hx
    rw [show e.found? = none from h.found?_eq_none hts hR] at hx
    cases hx
  stuck := by
    intro xs e rest hts hR he
    rw [show e.found? = none from h.found?_eq_none hts hR] at he
    cases he
  ahead_error := by
    intro xs t m e hts hR he
    rw [show e.found? = none from h.found?_eq_none hts hR] at he
    cases he

end ReadsLine

/-! ## Titles and step lines -/

theorem lineEnd_of_endsLine {ts : List Token} (h : (peek ts).kind.endsLine = true) :
    lineEnd ts = .ok ((), skipNewline ts) := by
  unfold lineEnd
  rcases Kind.endsLine_iff.1 h with h | h
  · rw [h]
    exact congrArg (fun rest => Except.ok ((), rest)) (if_pos h).symm
  · rw [h, skipNewline_of_ne_newline (by simp [h])]

theorem readHeading_eq (ts : List Token) : readHeading ts = (expect .colon ts).andThen fun _ rest =>
    .ok (FreeText.ofLine (takeLine rest), skipNewline (dropLine rest)) := by
  unfold readHeading
  congr 1
  funext _ rest
  rw [lineEnd_of_endsLine (endsLine_peek_dropLine rest)]
  rfl

/-- The parts of a heading. -/
theorem readHeading_cases {ts rest : List Token} {title : String}
    (h : readHeading ts = .ok (title, rest)) :
    (peek ts).kind = .colon ∧ rest = skipNewline (dropLine ts.tail) := by
  rw [readHeading_eq, expect] at h
  split at h
  · next hk =>
    cases h
    exact ⟨hk, rfl⟩
  · cases h

theorem readsLine_title :
    ReadsLine (fun ts => .ok (FreeText.ofLine (takeLine ts), skipNewline (dropLine ts)))
      fun _ => True where
  inhabited := ⟨[], by simp, trivial⟩
  rest_suffix := fun ts => (skipNewline_suffix _).trans (dropLine_suffix ts)
  rest_eq := fun h => (Prod.mk.inj (Except.ok.inj h)).2.symm
  sound := fun _ _ => trivial
  complete := fun _ => ⟨_, _, rfl⟩
  ahead := by
    intro l t m a hl ht h m'
    have hends : ∀ m, (peek (t :: m)).kind.endsLine = true := fun _ => ht
    rw [takeLine_append hl (hends m)] at h
    rw [takeLine_append hl (hends m'), dropLine_append hl (hends m'),
      (Prod.mk.inj (Except.ok.inj h)).1]
  found?_eq_none := nofun

theorem readsLine_step :
    ReadsLine (fun ts => (StepText.empty.readLine ts).andThen fun body rest =>
      .ok (body, skipNewline rest)) Admissible where
  inhabited := ⟨[], by simp, ⟨by simp, rfl⟩⟩
  rest_suffix := fun ts =>
    Parsed.rest_andThen_suffix (StepText.rest_readLine_suffix _ ts) fun _ => skipNewline_suffix
  rest_eq := by
    intro ts a rest h
    obtain ⟨body, mid, hbody, heq⟩ := Parsed.andThen_eq_ok.1 h
    rw [← StepText.rest_of_readLine hbody]
    exact (Prod.mk.inj (Except.ok.inj heq)).2.symm
  sound := by
    intro ts a rest hts h
    obtain ⟨body, mid, hbody, -⟩ := Parsed.andThen_eq_ok.1 h
    refine (StepText.readLine_eq_ok_iff hts).1 ⟨body, ?_⟩
    rw [← StepText.rest_of_readLine hbody]
    exact hbody
  complete := by
    intro ts hline
    obtain ⟨body, hbody⟩ := StepText.readLine_of_keepsAdmissible
      (StepText.echoes_empty (peek ts)) List.isChain_nil (admissible_iff.1 hline)
    exact ⟨body, _, Parsed.andThen_eq_ok.2 ⟨body, _, hbody, rfl⟩⟩
  ahead := by
    intro l t m a hl ht h m'
    obtain ⟨body, mid, hbody, heq⟩ := Parsed.andThen_eq_ok.1 h
    have hends : (peek (t :: m)).kind.endsLine = true := ht
    have hmid := StepText.rest_of_readLine hbody
    rw [dropLine_append hl hends] at hmid
    rw [hmid] at hbody
    rw [← (Prod.mk.inj (Except.ok.inj heq)).1]
    exact Parsed.andThen_eq_ok.2 ⟨body, _, StepText.readLine_append hl ht hbody m', rfl⟩
  found?_eq_none := by
    intro ts failure _ h
    rcases Parsed.andThen_eq_error.1 h with h | ⟨_, _, _, h⟩
    · obtain ⟨line, hline⟩ := StepText.error_of_readLine h
      rw [hline]
      rfl
    · cases h

end FeatureDoc
