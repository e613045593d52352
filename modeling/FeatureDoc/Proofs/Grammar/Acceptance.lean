import FeatureDoc.Document
import FeatureDoc.Proofs.Grammar.Feature

/-!
# What is accepted, and where errors stand

A text is accepted if and only if its tokens are derivable from the grammar. Where a text is refused
because of the token that was found, that token is the first one that no document can go on with.

* `FeatureSet.read_eq` says that a document is a feature and a check of the token after it.
* `Grammar.feature_endFree` says that no feature reaches over the end token, which is why the end
  token of a text is still there when its feature has been read.
* `parse_isOk_iff_derivable` and `correct_prefix_of_parse_error` are the main statements.
-/

namespace FeatureDoc

open FeatureDoc.Part

/-! ## The end token -/

namespace Grammar

/-- No feature reaches over the end token. -/
theorem feature_endFree : feature.Within (· ≠ .eof) := by
  have hkind : ∀ {k : Kind}, k ≠ .eof → (kind k).Within (· ≠ .eof) :=
    fun h => Within.kind (C := (· ≠ .eof)) h
  have htrivia : trivia.star.Within (· ≠ .eof) := by
    refine Within.star (Within.token ?_)
    rintro _ hk rfl
    cases hk
  have hline : ∀ P, (line P).Within (· ≠ .eof) := by
    rintro P _ rest ⟨l, rfl, hl, -, -⟩
    refine ⟨l, rfl, fun t ht heof => ?_⟩
    simpa [heof, Kind.endsLine] using hl t ht
  have hkeyword : (token (·.isStepKeyword = true)).Within (· ≠ .eof) := by
    apply Within.token
    rintro _ hk rfl
    cases hk
  have hend := lineEnd_within (C := (· ≠ .eof)) (by decide)
  have htable := table_within (C := (· ≠ .eof)) (by decide) (by decide)
  have htags : tags.Within (· ≠ .eof) := (htrivia.mul (hkind (by decide))).star.mul htrivia
  have hheading : heading.Within (· ≠ .eof) := ((hkind (by decide)).mul (hline _)).mul hend
  have hstep : step.Within (· ≠ .eof) := (((hkeyword.mul (hline _)).mul hend).mul
    (htable.add Within.one)).mul ((hkind (by decide)).add Within.one)
  have hsteps : steps.Within (· ≠ .eof) :=
    htrivia.mul ((hstep.mul htrivia).mul (hstep.mul htrivia).star)
  have hbackground : background.Within (· ≠ .eof) :=
    ((hkind (by decide)).mul hheading).mul hsteps
  have hscenario : scenario.Within (· ≠ .eof) :=
    ((htags.mul (hkind (by decide))).mul hheading).mul hsteps
  have hexamples : examples.Within (· ≠ .eof) := ((((hkind (by decide)).mul
    (hkind (by decide))).mul (hkind (by decide))).mul htrivia).mul htable
  have houtline : outline.Within (· ≠ .eof) := ((((htags.mul (hkind (by decide))).mul
    (hkind (by decide))).mul hheading).mul hsteps).mul hexamples
  have hdescription : description.Within (· ≠ .eof) :=
    (((hkind (by decide)).add (hkind (by decide))).add (hline _)).star
  exact ((((((htags.mul (hkind (by decide))).mul hheading).mul hdescription).mul
    (hbackground.add Within.one)).mul htrivia).mul
    ((hscenario.add houtline).mul htrivia).star)

end Grammar

/-! ## Documents -/

theorem readTags_skipTrivia (ts : List Token) : readTags (skipTrivia ts) = readTags ts := by
  induction ts with
  | nil => rfl
  | cons t ts ih =>
    cases h : t.kind.isTrivia with
    | true => rw [skipTrivia_cons h, ih, readTags, if_pos h]
    | false => rw [skipTrivia_eq_self (show (peek (t :: ts)).kind.isTrivia = false from h)]

theorem readTags_eq_self {ts : List Token} (htrivia : (peek ts).kind.isTrivia = false)
    (htag : (peek ts).kind ≠ .tag) : readTags ts = ([], ts) := by
  rcases ts with _ | ⟨t, ts⟩
  · rfl
  · rw [peek_cons] at htrivia htag
    simp [readTags, htrivia, htag]

theorem Feature.read_skipTrivia (ts : List Token) :
    Feature.read (skipTrivia ts) = Feature.read ts := by
  unfold Feature.read
  rw [readTags_skipTrivia]

/-- A document is a feature and nothing after it. -/
theorem FeatureSet.read_eq (ts : List Token) : FeatureSet.read ts =
    (Feature.read ts).andThen fun feature rest =>
      if (peek rest).kind = .eof then .ok (⟨[feature]⟩, rest)
      else .error ⟨.afterFeature (peek rest).kind (peek rest).line, rest⟩ := by
  have hread : ∀ rest feature, Feature.read ts = .ok (feature, rest) → skipTrivia rest = rest :=
    fun rest feature h => skipTrivia_eq_self (Feature.isTrivia_of_read h)
  unfold FeatureSet.read
  dsimp only
  rw [Feature.read_skipTrivia]
  split
  · rcases h : Feature.read ts with _ | ⟨feature, rest⟩
    · rfl
    · simp only [Parsed.andThen, hread rest feature h]
  · next h =>
    -- the first token is neither a tag nor the keyword, so the feature is refused there, too
    have htags := readTags_eq_self (isTrivia_peek_skipTrivia ts) (not_or.1 h).2
    rw [← Feature.read_skipTrivia, Feature.read, htags]
    simp only [not_or.1 h, if_false]
    rfl

theorem parse_eq_ok_iff {source : String} {set : FeatureSet} :
    parse source = .ok set ↔ ∃ rest, FeatureSet.read (tokens source) = .ok (set, rest) := by
  unfold parse Reader.result Reader.read Reader.ofString
  rcases FeatureSet.read (tokens source) with failure | ⟨set', rest⟩
  · simp
  · simp

theorem parse_eq_error_iff {source : String} {failure : ParseFailure} :
    parse source = .error failure ↔ ∃ e rest, FeatureSet.read (tokens source) = .error ⟨e, rest⟩ ∧
      failure = ⟨[e]⟩ := by
  unfold parse Reader.result Reader.read Reader.ofString
  rcases FeatureSet.read (tokens source) with ⟨e, rest⟩ | ⟨set, rest⟩
  · simp [eq_comm]
  · simp

/-- A document that was read is one feature, up to the end of the text. -/
theorem exists_read_of_parse {source : String} {set : FeatureSet} (h : parse source = .ok set) :
    ∃ feature rest, set = ⟨[feature]⟩ ∧ Feature.read (tokens source) = .ok (feature, rest) ∧
      (peek rest).kind = .eof := by
  obtain ⟨_, hread⟩ := parse_eq_ok_iff.1 h
  rw [FeatureSet.read_eq] at hread
  obtain ⟨feature, rest, hfeature, hend⟩ := Parsed.andThen_eq_ok.1 hread
  split at hend
  · next heof =>
    cases hend
    exact ⟨feature, _, rfl, hfeature, heof⟩
  · cases hend

theorem exists_read_of_mem {source : String} {set : FeatureSet} {f : Feature}
    (h : parse source = .ok set) (hf : f ∈ set.features) :
    ∃ rest, Feature.read (tokens source) = .ok (f, rest) := by
  obtain ⟨feature, rest, rfl, hfeature, -⟩ := exists_read_of_parse h
  obtain rfl := List.mem_singleton.1 hf
  exact ⟨rest, hfeature⟩

/-- What a feature leaves of a text holds the end token. -/
theorem exists_of_tokens_eq_append {source : String} {xs rest : List Token}
    (h : tokens source = xs ++ rest) (hxs : ∀ t ∈ xs, t.kind ≠ .eof) :
    ∃ ts e, rest = ts ++ [e] ∧ e.kind = .eof ∧ ∀ t ∈ ts, t.kind ≠ .eof := by
  obtain ⟨ts, e, heq, he, hts⟩ := (Cursor.ofString source).tokens_eq_append
  rcases List.append_eq_append_iff.1 (h.symm.trans heq) with ⟨ys, rfl, rfl⟩ | ⟨ys, rfl, hys⟩
  · exact ⟨ys, e, rfl, he, fun t ht => hts t (List.mem_append_right xs ht)⟩
  · rcases ys with _ | ⟨y, ys⟩
    · exact ⟨[], e, hys.symm, he, by simp⟩
    · obtain rfl : e = y := (List.cons.inj hys).1
      exact absurd he (hxs e (List.mem_append_right ts List.mem_cons_self))

/-- The feature that was read from a text is a feature of the grammar, and the end token is left. -/
theorem Feature.of_read {source : String} {rest : List Token} {feature : Feature}
    (h : Feature.read (tokens source) = .ok (feature, rest)) :
    ∃ xs, tokens source = xs ++ rest ∧ (∀ t ∈ xs, t.Spelled) ∧
      Grammar.feature (tokens source) rest ∧ ∃ ts e, rest = ts ++ [e] ∧ e.kind = .eof ∧
        ∀ t ∈ ts, t.kind ≠ .eof := by
  have hsuffix := Feature.reads_read.rest_suffix (tokens source)
  rw [h] at hsuffix
  obtain ⟨xs, hxs : xs ++ rest = tokens source⟩ := hsuffix
  have hspelled : ∀ t ∈ xs, t.Spelled := fun t ht =>
    (stream_tokens source).spelled t (hxs ▸ List.mem_append_left rest ht)
  rw [← hxs] at h
  have hfeature := Feature.reads_read.sound hspelled h
  obtain ⟨ys, hys, hfree⟩ := Grammar.feature_endFree _ _ hfeature
  obtain rfl := List.append_cancel_right hys
  exact ⟨xs, hxs.symm, hspelled, hxs ▸ hfeature, exists_of_tokens_eq_append hxs.symm hfree⟩

/-- A document is read to its end. -/
theorem Grammar.Derivable.read {ts : List Token} (h : Derivable ts) :
    ∃ feature e, Feature.read ts = .ok (feature, [e]) ∧ e.kind = .eof := by
  obtain ⟨rest, hfeature, e, he, rfl⟩ := h
  obtain ⟨feature, hread⟩ := Feature.reads_read.complete hfeature he
  exact ⟨feature, e, hread, he⟩

/-- A document that was read is one feature, after which only the end token is left. -/
theorem exists_read_end_of_parse {source : String} {set : FeatureSet} (h : parse source = .ok set) :
    ∃ feature e, set = ⟨[feature]⟩ ∧ Feature.read (tokens source) = .ok (feature, [e]) ∧
      e.kind = .eof := by
  obtain ⟨feature, rest, hset, hfeature, heof⟩ := exists_read_of_parse h
  obtain ⟨-, -, -, -, ts, e, rfl, he, hts⟩ := Feature.of_read hfeature
  rcases ts with _ | ⟨t, ts⟩
  · exact ⟨feature, e, hset, hfeature, he⟩
  · exact absurd heof (hts t List.mem_cons_self)

theorem parse_eq_ok_of_read {source : String} {feature : Feature} {e : Token}
    (h : Feature.read (tokens source) = .ok (feature, [e])) (he : e.kind = .eof) :
    parse source = .ok ⟨[feature]⟩ := by
  refine parse_eq_ok_iff.2 ⟨[e], ?_⟩
  rw [FeatureSet.read_eq, h, Parsed.ok_andThen]
  exact if_pos he

/-- **The texts that are accepted are exactly those whose tokens are a document.** -/
theorem parse_isOk_iff_derivable (source : String) :
    (∃ set, parse source = .ok set) ↔ Grammar.Derivable (tokens source) := by
  constructor
  · rintro ⟨set, h⟩
    obtain ⟨feature, e, -, hfeature, he⟩ := exists_read_end_of_parse h
    obtain ⟨-, -, -, hderived, -⟩ := Feature.of_read hfeature
    exact ⟨[e], hderived, e, he, rfl⟩
  · intro h
    obtain ⟨feature, e, hread, he⟩ := h.read
    exact ⟨⟨[feature]⟩, parse_eq_ok_of_read hread he⟩

/-! ## Where errors stand -/

/-- The tokens are the beginning of a document. -/
def Grammar.Viable (ts : List Token) : Prop := ∃ document, Derivable document ∧ ts <+: document

theorem Grammar.Viable.of_completes {xs : List Token} (h : feature.Completes xs) : Viable xs := by
  obtain ⟨ys, hys⟩ := h
  refine ⟨xs ++ ys ++ [⟨.eof, "", 1⟩], ⟨_, hys _, ⟨.eof, "", 1⟩, rfl, rfl⟩, ?_⟩
  rw [List.append_assoc]
  exact List.prefix_append xs _

/-- A token at which reading stops, whatever comes after it, ends every beginning of a document. -/
theorem Grammar.not_viable_of_forall {xs : List Token} {t : Token}
    (h : ∀ m feature e, Feature.read (xs ++ t :: m) = .ok (feature, [e]) → e.kind ≠ .eof) :
    ¬ Viable (xs ++ [t]) := by
  rintro ⟨document, hderivable, m, rfl⟩
  obtain ⟨feature, e, hread, he⟩ := hderivable.read
  rw [List.append_assoc, List.singleton_append] at hread
  exact h m feature e hread he

/-- The end token is left whenever the consumed tokens can be completed. -/
theorem rest_ne_nil_of_completes {source : String} {xs rest : List Token}
    (h : tokens source = xs ++ rest) (hxs : Grammar.feature.Completes xs) : rest ≠ [] := by
  obtain ⟨ys, hys⟩ := hxs
  obtain ⟨zs, hzs, hfree⟩ := Grammar.feature_endFree _ _ (hys [])
  obtain rfl := List.append_cancel_right hzs
  obtain ⟨ts, e, rfl, -, -⟩ :=
    exists_of_tokens_eq_append h fun t ht => hfree t (List.mem_append_left ys ht)
  simp

/-- **An error that names a token has the correct-prefix property**: the token is one of the text,
the tokens before it are the beginning of a document, and no document begins with these tokens and
the named one. -/
theorem correct_prefix_of_parse_error {source : String} {failure : ParseFailure} {e : ParseError}
    {k : Kind} {line : Nat} (h : parse source = .error failure) (he : e ∈ failure.errors)
    (hfound : e.found? = some (k, line)) :
    ∃ before t after, tokens source = before ++ t :: after ∧ t.kind = k ∧ t.line = line ∧
      Grammar.Viable before ∧ ¬ Grammar.Viable (before ++ [t]) := by
  obtain ⟨e', rest, hread, rfl⟩ := parse_eq_error_iff.1 h
  obtain rfl : e = e' := List.mem_singleton.1 he
  rw [FeatureSet.read_eq] at hread
  have hstream := stream_tokens source
  rcases Parsed.andThen_eq_error.1 hread with hfeature | ⟨feature, rest', hfeature, hend⟩
  · -- the feature itself is refused
    have hsuffix := Feature.reads_read.rest_suffix (tokens source)
    rw [hfeature] at hsuffix
    obtain ⟨xs, hxs : xs ++ rest = tokens source⟩ := hsuffix
    rw [← hxs] at hfeature hstream
    have hsome : e.found?.isSome := by rw [hfound]; rfl
    have hnames := Feature.reads_read.names hstream hfeature hfound
    have hcompletes := Feature.reads_read.stuck hstream hfeature hsome
    rcases rest with _ | ⟨t, after⟩
    · exact absurd rfl (rest_ne_nil_of_completes hxs.symm hcompletes)
    · obtain ⟨rfl, rfl⟩ := Prod.mk.inj hnames
      refine ⟨xs, t, after, hxs.symm, rfl, rfl, .of_completes hcompletes, ?_⟩
      apply Grammar.not_viable_of_forall
      intro m feature e hok
      rw [Feature.reads_read.ahead_error hstream hfeature hsome m] at hok
      cases hok
  · -- the feature is complete, and something comes after it
    split at hend
    · cases hend
    · next heof =>
      obtain ⟨xs, hxs, hspelled, -, ts, e', hrest, -, -⟩ := Feature.of_read hfeature
      cases hend
      rcases rest with _ | ⟨t, after⟩
      · simp at hrest
      · obtain ⟨rfl, rfl⟩ := Prod.mk.inj (Option.some.inj hfound)
        rw [hxs] at hfeature
        refine ⟨xs, t, after, hxs, rfl, rfl,
          .of_completes (Feature.reads_read.closes hspelled hfeature), ?_⟩
        apply Grammar.not_viable_of_forall
        intro m feature' e' hok
        rw [Feature.reads_read.ahead hfeature m] at hok
        obtain ⟨-, hlast⟩ := Prod.mk.inj (Except.ok.inj hok)
        exact (List.cons.inj hlast).1 ▸ heof

/-- An outline whose examples lack their colon: the line end in its place is the culprit. -/
theorem correct_prefix_missing_colon :
    parse "Feature: f\nScenario Outline: o\nGiven <a> \x7b\n| x |\n\nExamples\n| a |\n" =
        .error ⟨[.unexpectedToken .colon .newline "\n" 6]⟩ ∧
      ∃ before t after,
        tokens "Feature: f\nScenario Outline: o\nGiven <a> \x7b\n| x |\n\nExamples\n| a |\n" =
            before ++ t :: after ∧ t.kind = .newline ∧ t.line = 6 ∧
          Grammar.Viable before ∧ ¬ Grammar.Viable (before ++ [t]) := by
  have h : parse "Feature: f\nScenario Outline: o\nGiven <a> \x7b\n| x |\n\nExamples\n| a |\n" =
      .error ⟨[.unexpectedToken .colon .newline "\n" 6]⟩ := by decide +kernel
  exact ⟨h, correct_prefix_of_parse_error h (List.mem_singleton.2 rfl) rfl⟩

end FeatureDoc
