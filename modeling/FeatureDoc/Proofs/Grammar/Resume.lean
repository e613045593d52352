import FeatureDoc.Proofs.Grammar.Feature
import FeatureDoc.Proofs.Token.Append

/-!
# Reading on where a text ended

Where closed lines end, a reader cannot tell the end of the text from an entry that follows: it has
read all that it could read, and nothing that it still waits for begins with a line end, a comment,
a tag or a scenario.

* `ClosedLines xs` says that `xs` ends with a line end, and `BeforeEntry r` that the first token of
  `r` other than line ends and comments opens an entry.
* `Resumes R xs` is the law: what `R` reads in `xs` up to the end of the text, it also reads where
  an entry comes next. It has rules for two readers in a row, for choices and for loops, and it
  holds of all readers of a feature down to its entries.
* `Entry.readAll_append` and `Feature.read_append` are the main statements: further entries are read
  as if they stood alone.
-/

namespace FeatureDoc

open FeatureDoc.Part

/-- The tokens end with a line end, if there are any. -/
def ClosedLines (xs : List Token) : Prop := ∀ n ∈ xs.getLast?, n.kind = .newline

theorem ClosedLines.of_suffix {xs ys : List Token} (h : ClosedLines xs) (hs : ys <:+ xs) :
    ClosedLines ys := by
  obtain ⟨zs, rfl⟩ := hs
  rcases ys with _ | ⟨y, ys⟩
  · exact fun _ hn => absurd hn (by simp)
  · rwa [ClosedLines, List.getLast?_append_of_ne_nil zs (List.cons_ne_nil y ys)] at h

theorem ClosedLines.exists_newline {xs : List Token} (h : ClosedLines xs) (hne : xs ≠ []) :
    ∃ n ∈ xs, n.kind = .newline :=
  ⟨_, List.getLast_mem hne, h _ (List.getLast?_eq_some_getLast hne)⟩

theorem not_closedLines_singleton {t : Token} (h : t.kind ≠ .newline) : ¬ ClosedLines [t] :=
  fun hclosed => h (hclosed t rfl)

/-- The first token that is no trivia opens an entry. -/
def BeforeEntry (r : List Token) : Prop :=
  (peek (skipTrivia r)).kind = .tag ∨ (peek (skipTrivia r)).kind = .scenario

theorem BeforeEntry.of_eq {r r' : List Token} (h : BeforeEntry r)
    (hr : skipTrivia r' = skipTrivia r) : BeforeEntry r' := by rwa [BeforeEntry, hr]

/-- The kinds that the next token may have in front of an entry. -/
def Kind.leadsToEntry (k : Kind) : Bool := k.isTagOrTrivia || k == .scenario

theorem BeforeEntry.leadsToEntry {r : List Token} (h : BeforeEntry r) :
    (peek r).kind.leadsToEntry = true := by
  cases ht : (peek r).kind.isTrivia with
  | true => simp [Kind.leadsToEntry, Kind.isTagOrTrivia, ht]
  | false =>
    rw [BeforeEntry, skipTrivia_eq_self ht] at h
    rcases h with h | h
    · rw [h]; rfl
    · rw [h]; rfl

theorem skipTrivia_skipTrivia (r : List Token) : skipTrivia (skipTrivia r) = skipTrivia r :=
  skipTrivia_eq_self (isTrivia_peek_skipTrivia r)

theorem peek_append_of_ne_nil {xs : List Token} (h : xs ≠ []) (r r' : List Token) :
    peek (xs ++ r) = peek (xs ++ r') := by
  rcases xs with _ | ⟨x, xs⟩
  · exact absurd rfl h
  · rfl

/-! ## The law -/

/-- What `R` reads in `xs` up to the end of the text, it also reads in front of an entry. -/
def Resumes {α : Type} (R : List Token → Parsed α) (xs : List Token) : Prop :=
  ∀ ⦃e a r⦄, e.kind = .eof → R (xs ++ [e]) = .ok (a, [e]) → BeforeEntry r →
    ∃ r', R (xs ++ r) = .ok (a, r') ∧ skipTrivia r' = skipTrivia r

section

variable {α β : Type} {R : List Token → Parsed α} {p : Part} {next : Kind → Prop}
  {xs : List Token}

/-- A reader that stops before the end of `xs` need not resume: it does not get there. -/
theorem Reads.resume (hR : Reads R p next) {x₁ x₂ r : List Token} {e : Token} {a : α}
    (hres : x₂ = [] → Resumes R x₁) (he : e.kind = .eof)
    (h : R (x₁ ++ (x₂ ++ [e])) = .ok (a, x₂ ++ [e])) (hr : BeforeEntry r) :
    ∃ r', R (x₁ ++ (x₂ ++ r)) = .ok (a, x₂ ++ r') ∧ skipTrivia r' = skipTrivia r := by
  rcases x₂ with _ | ⟨y, ys⟩
  · exact hres rfl he h hr
  · exact ⟨r, hR.ahead h (ys ++ r), rfl⟩

namespace Resumes

theorem pure (a : α) : Resumes (fun ts => .ok (a, ts)) xs := by
  intro e a' r _ h _
  obtain ⟨rfl, hxs⟩ := Prod.mk.inj (Except.ok.inj h)
  rw [List.append_left_eq_self.1 hxs]
  exact ⟨r, rfl, rfl⟩

theorem refuse (k : Kind) : Resumes (refuse (α := α) k) xs := by
  intro e a r _ h _
  cases h

theorem map (h : Resumes R xs) (f : α → β) :
    Resumes (fun ts => (R ts).andThen fun a rest => .ok (f a, rest)) xs := by
  intro e b r he hok hr
  obtain ⟨a, mid, hRa, heq⟩ := Parsed.andThen_eq_ok.1 hok
  cases heq
  obtain ⟨r', hR', hr'⟩ := h he hRa hr
  exact ⟨r', Parsed.andThen_eq_ok.2 ⟨a, r', hR', rfl⟩, hr'⟩

section AndThen

variable {S : α → List Token → Parsed β}

/-- Of two readers in a row, the first one stops somewhere in `xs`, or resumes. -/
theorem exists_of_andThen (hR : Reads R p next) (hS : ∀ a ts, (S a ts).rest <:+ ts)
    (hres : Resumes R xs) {e : Token} {b : β} {r : List Token} (he : e.kind = .eof)
    (h : (R (xs ++ [e])).andThen S = .ok (b, [e])) (hr : BeforeEntry r) :
    ∃ a x r', x <:+ xs ∧ S a (x ++ [e]) = .ok (b, [e]) ∧ R (xs ++ r) = .ok (a, x ++ r') ∧
      skipTrivia r' = skipTrivia r := by
  obtain ⟨a, x₁, x₂, rfl, hRa, hSa⟩ := Reads.andThen_ok_split hR.rest_suffix hS h
  have hx₁ : x₂ = [] → Resumes R x₁ := by
    rintro rfl
    rwa [List.append_nil] at hres
  obtain ⟨r', hR', hr'⟩ := hR.resume hx₁ he hRa hr
  rw [← List.append_assoc] at hR'
  exact ⟨a, x₂, r', List.suffix_append x₁ x₂, hSa, hR', hr'⟩

/-- Of two readers in a row, either the first one stops before the end of `xs`, or both resume. -/
theorem andThen (hR : Reads R p next) (hS : ∀ a ts, (S a ts).rest <:+ ts)
    (hres : Resumes R xs) (hSres : ∀ a x, x <:+ xs → Resumes (S a) x) :
    Resumes (fun ts => (R ts).andThen S) xs := by
  intro e b r he hok hr
  obtain ⟨a, x, r₁, hx, hSa, hR₁, hr₁⟩ := exists_of_andThen hR hS hres he hok hr
  obtain ⟨r₂, hS₂, hr₂⟩ := hSres a x hx he hSa (hr.of_eq hr₁)
  exact ⟨r₂, Parsed.andThen_eq_ok.2 ⟨a, _, hR₁, hS₂⟩, hr₂.trans hr₁⟩

/-- A reader that cannot stop at the end of `xs` need not resume, and the one after it only where
something is left. -/
theorem andThen_of_ne (hR : Reads R p next) (hS : ∀ a ts, (S a ts).rest <:+ ts)
    (hne : ∀ {e a b}, e.kind = .eof → R (xs ++ [e]) = .ok (a, [e]) → S a [e] ≠ .ok (b, [e]))
    (hSres : ∀ a x, x <:+ xs → x ≠ [] → Resumes (S a) x) :
    Resumes (fun ts => (R ts).andThen S) xs := by
  intro e b r he hok hr
  obtain ⟨a, x₁, x₂, rfl, hRa, hSa⟩ := Reads.andThen_ok_split hR.rest_suffix hS hok
  have hx₂ : x₂ ≠ [] := by
    rintro rfl
    rw [List.append_nil] at hne
    exact hne he hRa hSa
  obtain ⟨r₁, hR₁, hr₁⟩ := hR.resume (fun h => absurd h hx₂) he hRa hr
  obtain ⟨r₂, hS₂, hr₂⟩ := hSres a x₂ (List.suffix_append x₁ x₂) hx₂ he hSa (hr.of_eq hr₁)
  rw [List.append_assoc]
  exact ⟨r₂, Parsed.andThen_eq_ok.2 ⟨a, _, hR₁, hS₂⟩, hr₂.trans hr₁⟩

end AndThen

section Ite

variable {S : List Token → Parsed α} {C : Kind → Prop} [DecidablePred C]

theorem ite_of_ne_nil (hxs : xs ≠ []) (hR : Resumes R xs) (hS : Resumes S xs) :
    Resumes (fun ts => if C (peek ts).kind then R ts else S ts) xs := by
  intro e a r he hok hr
  dsimp only at hok ⊢
  rw [peek_append_of_ne_nil hxs [e] r] at hok
  by_cases hC : C (peek (xs ++ r)).kind
  · simp only [if_pos hC] at hok ⊢
    exact hR he hok hr
  · simp only [if_neg hC] at hok ⊢
    exact hS he hok hr

/-- A choice resumes if neither the end of the text nor what leads to an entry is in `C`. -/
theorem ite (heof : ¬ C .eof) (hC : ∀ k, k.leadsToEntry = true → ¬ C k)
    (hR : xs ≠ [] → Resumes R xs) (hS : Resumes S xs) :
    Resumes (fun ts => if C (peek ts).kind then R ts else S ts) xs := by
  by_cases hxs : xs = []
  · subst hxs
    intro e a r he hok hr
    have hend : ¬ C (peek ([] ++ [e])).kind := by rwa [List.nil_append, peek_cons, he]
    have hentry : ¬ C (peek ([] ++ r)).kind := hC _ hr.leadsToEntry
    simp only [if_neg hend] at hok
    simp only [if_neg hentry]
    exact hS he hok hr
  · exact ite_of_ne_nil hxs (hR hxs) hS

end Ite

/-! ### Loops -/

section Loop

variable {γ : Type} {L : List Token → Parsed γ} {f : α → γ → γ} {z : γ} {C : Kind → Prop}

/-- A loop whose condition does not lead to an entry stops in front of it. -/
theorem loop_nil (h : Repeats L R f z C) (heof : ¬ C .eof)
    (hC : ∀ k, k.leadsToEntry = true → ¬ C k) : Resumes L [] := by
  intro e c r he hok hr
  have hend : ¬ C (peek [e]).kind := by rwa [peek_cons, he]
  rw [List.nil_append, h.done hend] at hok
  cases hok
  exact ⟨r, h.done (hC _ hr.leadsToEntry), rfl⟩

/-- The first round of a loop, where an entry comes next. -/
theorem exists_of_round (h : Repeats L R f z C) (hR : Reads R p next) (hxs : ClosedLines xs)
    (hround : ∀ x, ClosedLines x → x ≠ [] → Resumes R x) {e : Token} {a : α} {mid r : List Token}
    (he : e.kind = .eof) (hk : C (peek (xs ++ [e])).kind) (ha : R (xs ++ [e]) = .ok (a, mid))
    (hmid : (L mid).rest = [e]) (hr : BeforeEntry r) :
    ∃ x r', x <:+ xs ∧ mid = x ++ [e] ∧ C (peek (xs ++ r)).kind ∧ R (xs ++ r) = .ok (a, x ++ r') ∧
      skipTrivia r' = skipTrivia r := by
  have hne : xs ≠ [] := by
    rintro rfl
    have hlt := h.rest_lt hk ha
    have hle := (h.rest_suffix hR.rest_suffix mid).length_le
    rw [hmid] at hle
    exact absurd hlt (Nat.not_lt.2 hle)
  obtain ⟨x₁, x₂, rfl, rfl⟩ := h.split hR.rest_suffix ha hmid
  have hx₁ : x₂ = [] → Resumes R x₁ := by
    rintro rfl
    rw [List.append_nil] at hxs hne
    exact hround x₁ hxs hne
  rw [List.append_assoc] at ha
  obtain ⟨r', hR', hr'⟩ := hR.resume hx₁ he ha hr
  rw [← List.append_assoc] at hR'
  rw [peek_append_of_ne_nil hne [e] r] at hk
  exact ⟨x₂, r', List.suffix_append x₁ x₂, rfl, hk, hR', hr'⟩

/-- **A loop resumes if its rounds and its end do.** -/
theorem loop (h : Repeats L R f z C) (hR : Reads R p next) (hxs : ClosedLines xs)
    (hround : ∀ x, ClosedLines x → x ≠ [] → Resumes R x) (hend : Resumes L []) :
    Resumes L xs := by
  intro e c r he hok hr
  generalize hts : xs ++ [e] = ts at hok
  induction ts using h.induction generalizing xs c r with
  | step ts ih =>
    subst hts
    rcases h.eq_ok hok with ⟨-, -, heq⟩ | ⟨a, c', mid, hk, ha, hmid, rfl⟩
    · rw [List.append_left_eq_self.1 heq] at hok ⊢
      exact hend he hok hr
    · obtain ⟨x, r₁, hx, rfl, hk₁, hR₁, hr₁⟩ :=
        exists_of_round h hR hxs hround he hk ha (by rw [hmid]; rfl) hr
      obtain ⟨r₂, hL₂, hr₂⟩ := ih a _ hk ha (hxs.of_suffix hx) (hr.of_eq hr₁) rfl hmid
      exact ⟨r₂, h.cons_ok hk₁ hR₁ hL₂, hr₂.trans hr₁⟩

end Loop

end Resumes

end

/-! ## Tokens, lines and tables -/

section Take

variable {C : Kind → Prop} [DecidablePred C] {error : Token → ParseError} {xs : List Token}

theorem resumes_take (hC : ¬ C .eof) : Resumes (take C error) xs := by
  intro e t r he hok hr
  obtain ⟨ht, hts⟩ := (take_eq_ok hC).1 hok
  obtain rfl : xs = [t] := List.append_cancel_right hts
  exact ⟨r, (take_eq_ok hC).2 ⟨ht, rfl⟩, rfl⟩

/-- The end token is not consumed. -/
theorem take_end_ne (hC : ¬ C .eof) {e : Token} (he : e.kind = .eof) {x : Token × List Token} :
    take C error [e] ≠ .ok x := by
  intro hok
  obtain ⟨ht, hts⟩ := (take_eq_ok hC).1 hok
  rw [← (List.cons.inj hts).1, he] at ht
  exact hC ht

/-- A token that is no line end does not close a line. -/
theorem take_ne_of_closedLines (hC : ¬ C .eof) (hline : ¬ C .newline) (hxs : ClosedLines xs)
    {e t : Token} : take C error (xs ++ [e]) ≠ .ok (t, [e]) := by
  intro hok
  obtain ⟨ht, hts⟩ := (take_eq_ok hC).1 hok
  obtain rfl : xs = [t] := List.append_cancel_right hts
  exact not_closedLines_singleton (fun hk => hline (hk ▸ ht)) hxs

theorem resumes_expect {k : Kind} (hk : k ≠ .eof) : Resumes (expect k) xs := by
  rw [expect_eq]
  exact (resumes_take fun h => hk h.symm).map fun _ => ()

theorem expect_ne_of_closedLines {k : Kind} (hk : k ≠ .eof) (hline : k ≠ .newline)
    (hxs : ClosedLines xs) {e : Token} : expect k (xs ++ [e]) ≠ .ok ((), [e]) := by
  rw [expect_eq]
  intro hok
  obtain ⟨t, mid, htake, heq⟩ := Parsed.andThen_eq_ok.1 hok
  cases heq
  exact take_ne_of_closedLines (fun h => hk h.symm) (fun h => hline h.symm) hxs htake

end Take

variable {xs : List Token}

theorem skipTrivia_append {e : Token} (h : skipTrivia (xs ++ [e]) = [e]) (r : List Token) :
    skipTrivia (xs ++ r) = skipTrivia r := by
  induction xs with
  | nil => rfl
  | cons x xs ih =>
    cases hx : x.kind.isTrivia with
    | true =>
      rw [List.cons_append, skipTrivia_cons hx] at h
      rw [List.cons_append, skipTrivia_cons hx, ih h]
    | false =>
      rw [skipTrivia_eq_self (show (peek (x :: xs ++ [e])).kind.isTrivia = false from hx)] at h
      exact absurd (List.append_left_eq_self.1 h) (List.cons_ne_nil x xs)

theorem resumes_skipTrivia : Resumes (fun ts => .ok ((), skipTrivia ts)) xs := by
  intro e _ r _ hok _
  have hskip : skipTrivia (xs ++ [e]) = [e] := (Prod.mk.inj (Except.ok.inj hok)).2
  refine ⟨skipTrivia r, ?_, skipTrivia_skipTrivia r⟩
  dsimp only
  rw [skipTrivia_append hskip]

/-- A line is read to its end, so it does not matter what comes after it. -/
theorem ReadsLine.resumes {α : Type} {R : List Token → Parsed α} {P : List Token → Prop}
    (h : ReadsLine R P) (hxs : ClosedLines xs) (hne : xs ≠ []) : Resumes R xs := by
  intro e a r he hok hr
  rcases line_split (h.rest_eq hok) with ⟨l, n, rfl, hl, hn⟩ | ⟨hl, -⟩
  · rw [List.append_assoc, List.singleton_append] at hok ⊢
    have hends : n.kind.endsLine = true := by rw [hn]; rfl
    have hline : ∀ m, skipNewline (n :: m) = m := skipNewline_cons_of_newline hn
    have hall := h.ahead hl hends (by rw [hline]; exact hok) r
    rw [hline] at hall
    exact ⟨r, hall, rfl⟩
  · obtain ⟨n, hmem, hn⟩ := hxs.exists_newline hne
    have := hl n hmem
    rw [hn] at this
    cases this

theorem resumes_readHeading (hxs : ClosedLines xs) : Resumes readHeading xs := by
  have hcolon : Reads (expect .colon) (kind .colon) fun _ => True := reads_expect (by decide)
  rw [funext readHeading_eq]
  exact .andThen_of_ne hcolon (fun _ => readsLine_title.rest_suffix)
    (fun _ hok => absurd hok (expect_ne_of_closedLines (by decide) (by decide) hxs))
    fun _ x hx => readsLine_title.resumes (hxs.of_suffix hx)

theorem resumes_readRows (n : Nat) (hxs : ClosedLines xs) :
    Resumes (Table.readRows (some (n + 1))) xs := by
  have hC : ∀ k : Kind, k.leadsToEntry = true → ¬ k = .tableData := by
    rintro _ hk rfl
    cases hk
  have hrow : Reads (rowReader (n + 1)) _ fun _ => True := (readsLine_row n).reads
  exact .loop (readRows_repeats _) hrow hxs (fun x => (readsLine_row n).resumes)
    (.loop_nil (readRows_repeats _) Kind.noConfusion hC)

theorem resumes_tableOfWidth (n : Nat) (hxs : ClosedLines xs) (hne : xs ≠ []) :
    Resumes (tableOfWidth (n + 1)) xs := by
  have hrow : Reads (rowReader (n + 1)) _ fun _ => True := (readsLine_row n).reads
  have hrest : ∀ ts, (Table.readRows (some (n + 1)) ts).rest <:+ ts :=
    Table.rest_readRows_suffix _
  refine Resumes.ite_of_ne_nil (C := (· = .tableData)) hne ?_ (.refuse _)
  exact .andThen hrow (fun row ts => Parsed.rest_andThen_suffix (hrest ts) fun _ _ =>
    List.suffix_rfl) ((readsLine_row n).resumes hxs hne) fun row x hx =>
      (resumes_readRows n (hxs.of_suffix hx)).map fun rows => (⟨row :: rows⟩ : Table)

theorem resumes_tableReader (hxs : ClosedLines xs) : Resumes tableReader xs := by
  intro e t r he hok hr
  by_cases hne : xs = []
  · subst hne
    simp [tableReader, he, refuse] at hok
  · obtain ⟨n, hmem, hn⟩ := hxs.exists_newline hne
    have hcell : ∃ x ∈ xs, x.isCell = false := ⟨n, hmem, by simp [Token.isCell, hn]⟩
    rw [tableReader_eq, takeWhile_append_of_exists hcell] at hok
    obtain ⟨r', hok', hr'⟩ := resumes_tableOfWidth _ hxs hne he hok hr
    refine ⟨r', ?_, hr'⟩
    rw [tableReader_eq, takeWhile_append_of_exists hcell]
    exact hok'

/-! ## Steps -/

namespace Step

theorem resumes_readTable? (hxs : ClosedLines xs) : Resumes readTable? xs := by
  have hC : ∀ k : Kind, k.leadsToEntry = true → ¬ k = .tableData := by
    rintro _ hk rfl
    cases hk
  rw [funext readTable?_eq]
  exact .ite Kind.noConfusion hC (fun _ => (resumes_tableReader hxs).map some) (.pure none)

theorem resumes_finish (keyword : Token) (body : StepText) (table : Option Table) :
    Resumes (finish keyword body table) xs := by
  have hC : ∀ k : Kind, k.leadsToEntry = true → ¬ k = .docString := by
    rintro _ hk rfl
    cases hk
  exact .ite Kind.noConfusion hC (fun _ => (resumes_take (by decide)).map _) (.pure _)

theorem resumes_read (keyword : Token) (hxs : ClosedLines xs) (hne : xs ≠ []) :
    Resumes (read keyword) xs := by
  have hline : Reads (fun ts => (StepText.empty.readLine ts).andThen fun body rest =>
      .ok (body, skipNewline rest)) (Grammar.line Admissible * Grammar.lineEnd) fun _ => True :=
    readsLine_step.reads
  have hrest : ∀ (body : StepText) table ts, (finish keyword body table ts).rest <:+ ts :=
    fun body table => (reads_finish keyword body table).rest_suffix
  rw [funext (read_eq keyword)]
  refine .andThen hline (fun body ts => Parsed.rest_andThen_suffix (rest_readTable?_suffix ts)
    (hrest _)) (readsLine_step.resumes hxs hne) fun body x hx => ?_
  exact .andThen reads_readTable? (hrest _) (resumes_readTable? (hxs.of_suffix hx))
    fun table _ _ => resumes_finish keyword _ table

theorem resumes_readRound {error : Token → ParseError}
    (herror : ∀ t, (error t).found? = some (t.kind, t.line)) (hxs : ClosedLines xs) :
    Resumes (readRound error) xs := by
  have htake : Reads (take (·.isStepKeyword = true) error) (token (·.isStepKeyword = true))
      fun _ => True := Reads.take (k := .step .given) rfl (by decide) herror
  have hskip : ∀ (step : Step) (x : List Token),
      Resumes (fun rest => .ok (step, skipTrivia rest)) x := fun step _ =>
    resumes_skipTrivia.map fun _ => step
  refine .andThen_of_ne htake (fun keyword ts => Parsed.rest_andThen_suffix
    (rest_read_suffix keyword ts) fun _ => skipTrivia_suffix)
    (fun _ hok => absurd hok (take_ne_of_closedLines (by decide) (by decide) hxs))
    fun keyword x hx hne => ?_
  exact .andThen (reads_read keyword) (fun _ => skipTrivia_suffix)
    (resumes_read keyword (hxs.of_suffix hx) hne) fun step y _ => hskip step y

theorem resumes_readAll (hxs : ClosedLines xs) : Resumes readAll xs := by
  have hC : ∀ k : Kind, k.leadsToEntry = true → ¬ k.isStepKeyword = true := by
    intro k hk
    cases k <;> simp_all [Kind.leadsToEntry, Kind.isTagOrTrivia, Kind.isTrivia, Kind.isStepKeyword,
      Kind.stepKeyword?]
  have hrepeats := readAll_repeats (ParseError.unexpected .eof)
  exact .loop hrepeats (reads_readRound fun _ => rfl) hxs
    (fun x hx _ => resumes_readRound (fun _ => rfl) hx) (.loop_nil hrepeats (by decide) hC)

theorem resumes_readBlockOf (owner : StepOwner) (hxs : ClosedLines xs) :
    Resumes (readBlockOf owner) xs := by
  have hround : Reads (readRound fun t => .noSteps owner t.kind t.line) _ _ :=
    reads_readRound fun _ => rfl
  have hrest : ∀ (step : Step) ts, ((readAll ts).andThen fun steps rest =>
      .ok (step :: steps, rest)).rest <:+ ts := fun step ts =>
    Parsed.rest_andThen_suffix (rest_readAll_suffix ts) fun _ _ => List.suffix_rfl
  rw [funext (readBlockOf_eq owner)]
  refine Resumes.andThen (R := fun ts => .ok ((), skipTrivia ts)) reads_skipTrivia
    (fun _ ts => Parsed.rest_andThen_suffix (hround.rest_suffix ts) hrest) resumes_skipTrivia
    fun _ x hx => ?_
  exact .andThen hround hrest (resumes_readRound (fun _ => rfl) (hxs.of_suffix hx))
    fun step y hy => (resumes_readAll ((hxs.of_suffix hx).of_suffix hy)).map _

end Step

/-! ## Entries -/

namespace Entry

theorem resumes_readExamplesFrom (hxs : ClosedLines xs) : Resumes readExamplesFrom xs := by
  have hexamples : Reads (expect .examples) (kind .examples) fun _ => True :=
    reads_expect (by decide)
  have hcolon : Reads (expect .colon) (kind .colon) fun _ => True := reads_expect (by decide)
  have hnewline : Reads (expect .newline) (kind .newline) fun _ => True := reads_expect (by decide)
  have htable : ∀ ts, (tableReader (skipTrivia ts)).rest <:+ ts := fun ts =>
    (reads_tableReader.rest_suffix _).trans (skipTrivia_suffix ts)
  have hline : ∀ ts, ((expect .newline ts).andThen fun _ rest =>
      tableReader (skipTrivia rest)).rest <:+ ts := fun ts =>
    Parsed.rest_andThen_suffix (rest_expect_suffix _ ts) fun _ => htable
  have hexpect : ∀ {k : Kind} {x : List Token} {e : Token}, k ≠ .eof → k ≠ .newline → x <:+ xs →
      expect k (x ++ [e]) ≠ .ok ((), [e]) := fun hk hline hx =>
    expect_ne_of_closedLines hk hline (hxs.of_suffix hx)
  refine .andThen_of_ne hexamples (fun _ ts => Parsed.rest_andThen_suffix
    (rest_expect_suffix _ ts) fun _ => hline)
    (fun _ hok => absurd hok (hexpect (by decide) (by decide) List.suffix_rfl))
    fun _ x hx _ => ?_
  refine .andThen_of_ne hcolon (fun _ => hline)
    (fun _ hok => absurd hok (hexpect (by decide) (by decide) hx)) fun _ y hy _ => ?_
  refine .andThen hnewline (fun _ => htable) (resumes_expect (by decide)) fun _ z hz => ?_
  exact Resumes.andThen (R := fun ts => .ok ((), skipTrivia ts)) reads_skipTrivia
    (fun _ => reads_tableReader.rest_suffix) resumes_skipTrivia fun _ w hw =>
      resumes_tableReader (((hxs.of_suffix hx).of_suffix hy).of_suffix hz |>.of_suffix hw)

theorem resumes_readScenario (tags : List String) (line : Nat) (hxs : ClosedLines xs) :
    Resumes (readScenario tags line) xs := by
  have hheading : Reads readHeading Grammar.heading fun _ => True := reads_readHeading
  exact .andThen hheading (fun _ ts => Parsed.rest_andThen_suffix
    (Step.rest_readBlockOf_suffix _ ts) fun _ _ => List.suffix_rfl) (resumes_readHeading hxs)
    fun text x hx => (Step.resumes_readBlockOf _ (hxs.of_suffix hx)).map _

theorem resumes_readOutlineRound (tags : List String) (line : Nat) (hxs : ClosedLines xs) :
    Resumes (readOutlineRound tags line) xs := by
  have hheading : Reads readHeading Grammar.heading fun _ => True := reads_readHeading
  have hexamples : ∀ text steps ts, ((readExamplesFrom ts).andThen fun examples rest =>
      .ok (Entry.outline ⟨⟨text, line, tags, steps⟩, examples⟩, skipTrivia rest)).rest <:+ ts :=
    fun text steps ts => Parsed.rest_andThen_suffix (reads_readExamplesFrom.rest_suffix ts)
      fun _ => skipTrivia_suffix
  have hskip : ∀ (entry : Entry) (x : List Token),
      Resumes (fun rest => .ok (entry, skipTrivia rest)) x := fun entry _ =>
    resumes_skipTrivia.map fun _ => entry
  refine .andThen hheading (fun text ts => Parsed.rest_andThen_suffix
    (Step.rest_readBlockOf_suffix _ ts) (hexamples text)) (resumes_readHeading hxs)
    fun text x hx => ?_
  refine .andThen (Step.reads_readBlockOf _) (hexamples text)
    (Step.resumes_readBlockOf _ (hxs.of_suffix hx)) fun steps y hy => ?_
  exact .andThen reads_readExamplesFrom (fun _ => skipTrivia_suffix)
    (resumes_readExamplesFrom ((hxs.of_suffix hx).of_suffix hy)) fun examples z _ => hskip _ z

theorem resumes_readKeyworded (tags : List String) (hxs : ClosedLines xs) :
    Resumes (readKeyworded tags) xs := by
  have hscenario : Reads (take (· = .scenario) (ParseError.unexpected .scenario)) (kind .scenario)
      fun _ => True := Reads.take rfl (by decide) fun _ => rfl
  have houtline : Reads (take (· = .outline) (ParseError.unexpected .outline)) (kind .outline)
      fun _ => True := Reads.take rfl (by decide) fun _ => rfl
  have hround : ∀ (line : Nat) (_ : Token) ts, (readOutlineRound tags line ts).rest <:+ ts :=
    fun line _ => (reads_readOutlineRound tags line).rest_suffix
  refine .andThen_of_ne hscenario (fun t ts => ?_)
    (fun _ hok => absurd hok (take_ne_of_closedLines (by decide) (by decide) hxs))
    fun t x hx hne => ?_
  · split
    · exact Parsed.rest_andThen_suffix (houtline.rest_suffix ts) (hround t.line)
    · exact (reads_readScenario tags t.line).rest_suffix ts
  · have hclosed := hxs.of_suffix hx
    refine Resumes.ite_of_ne_nil (C := (· = .outline)) hne ?_
      (resumes_readScenario tags t.line hclosed)
    exact .andThen houtline (hround t.line) (resumes_take (by decide)) fun _ y hy =>
      resumes_readOutlineRound tags t.line (hclosed.of_suffix hy)

theorem resumes_readRound (hxs : ClosedLines xs) : Resumes readRound xs := by
  refine .andThen_of_ne reads_readOpenTags (fun tags => (reads_readKeyworded tags).rest_suffix)
    (fun he _ hok => ?_) fun tags x hx _ => resumes_readKeyworded tags (hxs.of_suffix hx)
  -- tags alone do not make an entry
  obtain ⟨t, _, htake, -⟩ := Parsed.andThen_eq_ok.1 hok
  exact take_end_ne (by decide) he htake

/-- **Further entries are read as if they stood alone.** Where entries were read up to the end of
the text, `r` follows, with trivia in front only if there is something else before them. -/
theorem readAll_append {e : Token} {r rest : List Token} {entries more : List Entry}
    (hxs : ClosedLines xs) (he : e.kind = .eof) (h : readAll (xs ++ [e]) = .ok (entries, [e]))
    (hr : BeforeEntry r) (htrivia : xs = [] → (peek r).kind.isTrivia = false)
    (hmore : readAll (skipTrivia r) = .ok (more, rest)) :
    readAll (xs ++ r) = .ok (entries ++ more, rest) := by
  generalize hts : xs ++ [e] = ts at h
  induction ts using readAll_repeats.induction generalizing xs r entries with
  | step ts ih =>
    subst hts
    rcases readAll_repeats.eq_ok h with ⟨-, rfl, heq⟩ | ⟨entry, entries, mid, hk, hb, hmid, rfl⟩
    · obtain rfl := List.append_left_eq_self.1 heq
      rwa [skipTrivia_eq_self (htrivia rfl)] at hmore
    · obtain ⟨x, r₁, hx, rfl, hk₁, hround, hr₁⟩ := Resumes.exists_of_round readAll_repeats
        reads_readRound hxs (fun _ hx _ => resumes_readRound hx) he hk hb (by rw [hmid]; rfl) hr
      have htrivia₁ : x = [] → (peek r₁).kind.isTrivia = false := by
        rintro rfl
        exact isTrivia_of_readRound hround
      have hrest :=
        ih entry _ hk hb (hxs.of_suffix hx) (hr.of_eq hr₁) htrivia₁ (hr₁ ▸ hmore) rfl hmid
      exact readAll_repeats.cons_ok hk₁ hround hrest

end Entry

/-! ## Features -/

namespace Feature

theorem readDescription_of_beforeEntry {r : List Token} (hr : BeforeEntry r) :
    readDescription r = ([], skipTrivia r) := by
  induction r with
  | nil => rcases hr with h | h <;> cases h
  | cons t r ih =>
    cases ht : t.kind.isTrivia with
    | true =>
      have hnext : t.kind.endsDescription = false := by
        rcases Kind.isTrivia_iff.1 ht with h | h <;> rw [h] <;> rfl
      rw [BeforeEntry, skipTrivia_cons ht] at hr
      rw [readDescription, skipTrivia_cons ht, ih hr]
      simp [hnext, ht]
    | false =>
      have hskip : skipTrivia (t :: r) = t :: r := skipTrivia_eq_self ht
      rw [BeforeEntry, hskip, peek_cons] at hr
      have hends : t.kind.endsDescription = true := by
        rcases hr with h | h <;> rw [h] <;> rfl
      rw [readDescription, hskip, if_pos hends]

theorem resumes_readDescription (hxs : ClosedLines xs) :
    Resumes (fun ts => .ok (readDescription ts)) xs := by
  refine .loop readDescription_repeats reads_readDescriptionRound hxs (fun x hx hne => ?_) ?_
  · exact Resumes.ite_of_ne_nil (C := (·.isTrivia = true)) hne
      ((resumes_take (by decide)).map fun _ => "") (readsLine_description.resumes hx hne)
  · intro e lines r he hok hr
    have hend : readDescription [e] = ([], [e]) := by
      rw [readDescription, he]
      rfl
    dsimp only [List.nil_append] at hok ⊢
    rw [hend] at hok
    cases hok
    exact ⟨skipTrivia r, by rw [readDescription_of_beforeEntry hr], skipTrivia_skipTrivia r⟩

theorem resumes_readBackground? (hxs : ClosedLines xs) : Resumes readBackground? xs := by
  have hkeyword : Reads (take (· = .background) (ParseError.unexpected .background))
      (kind .background) fun _ => True := Reads.take rfl (by decide) fun _ => rfl
  have hheading : Reads readHeading Grammar.heading fun _ => True := reads_readHeading
  have hsteps : ∀ (_ : String) ts, ((Step.readBlockOf .background ts).andThen fun steps rest =>
      .ok (some steps, rest)).rest <:+ ts := fun _ ts =>
    Parsed.rest_andThen_suffix (Step.rest_readBlockOf_suffix _ ts) fun _ _ => List.suffix_rfl
  have hC : ∀ k : Kind, k.leadsToEntry = true → ¬ k = .background := by
    rintro _ hk rfl
    cases hk
  rw [funext readBackground?_eq]
  refine .ite Kind.noConfusion hC (fun _ => ?_) (.pure none)
  refine .andThen_of_ne hkeyword (fun _ ts => Parsed.rest_andThen_suffix
    (rest_readHeading_suffix ts) hsteps)
    (fun _ hok => absurd hok (take_ne_of_closedLines (by decide) (by decide) hxs))
    fun _ x hx _ => ?_
  exact .andThen hheading hsteps (resumes_readHeading (hxs.of_suffix hx)) fun _ y hy =>
    (Step.resumes_readBlockOf _ ((hxs.of_suffix hx).of_suffix hy)).map some

/-- What may come after the head of a feature. -/
def EndsHead (k : Kind) : Prop := (EndsSteps k ∧ k ≠ .background) ∧ k.endsDescription = true

/-- Read what follows the keyword of a feature, up to its entries. -/
def readHeadFrom (tags : List String) (keyword : Token) (ts : List Token) : Parsed Feature :=
  (readHeading ts).andThen fun title rest =>
  Parsed.andThen (.ok (readDescription rest)) fun description rest =>
  (readBackground? rest).andThen fun background rest =>
    .ok (⟨title, keyword.line, tags, description, background, []⟩, rest)

/-- Read a feature up to its entries. -/
def readHead (ts : List Token) : Parsed Feature :=
  Parsed.andThen (.ok (readTags ts)) fun tags rest =>
  (take (· = .feature) (ParseError.unexpected .feature) rest).andThen fun keyword rest =>
    readHeadFrom tags keyword rest

theorem read_eq_readHead (ts : List Token) : read ts =
    (readHead ts).andThen fun feature rest => (Entry.readAll rest).andThen fun scenarios rest =>
      .ok ({ feature with scenarios }, rest) := by
  simp only [read_eq, readHead, readFrom, readHeadFrom, Parsed.andThen_assoc, Parsed.ok_andThen]

theorem reads_readHeadFrom (tags : List String) (keyword : Token) :
    Reads (readHeadFrom tags keyword)
      (Grammar.heading * (Grammar.description * Grammar.background.opt)) EndsHead := by
  have hheading : Reads readHeading Grammar.heading fun _ => True := reads_readHeading
  have hbackground : Reads readBackground? Grammar.background.opt EndsHead :=
    reads_readBackground?.mono fun _ hk => hk.1
  have hopen : Grammar.background.opt.Opens EndsHead (·.endsDescription = true) :=
    Part.Opens.add (Part.Opens.mul_left (Part.Opens.mul_left (Part.Opens.kind rfl)))
      (Part.Opens.one fun _ hk => hk.2)
  exact hheading.andThen (fun title => reads_readDescription.andThen (fun description =>
    hbackground.map fun background =>
      (⟨title, keyword.line, tags, description, background, []⟩ : Feature)) hopen)
    fun _ _ _ _ => trivial

theorem resumes_readHeadFrom (tags : List String) (keyword : Token) (hxs : ClosedLines xs) :
    Resumes (readHeadFrom tags keyword) xs := by
  have hheading : Reads readHeading Grammar.heading fun _ => True := reads_readHeading
  have hback : ∀ (f : Option (List Step) → Feature) ts, ((readBackground? ts).andThen
      fun background rest => .ok (f background, rest)).rest <:+ ts := fun f ts =>
    Parsed.rest_andThen_suffix (reads_readBackground?.rest_suffix ts) fun _ _ => List.suffix_rfl
  refine .andThen hheading (fun title ts => Parsed.rest_andThen_suffix
    (reads_readDescription.rest_suffix ts) fun _ => hback _) (resumes_readHeading hxs)
    fun title x hx => ?_
  have hx := hxs.of_suffix hx
  exact Resumes.andThen (R := fun ts => .ok (readDescription ts)) reads_readDescription
    (fun description => hback _) (resumes_readDescription hx) fun description y hy =>
      (resumes_readBackground? (hx.of_suffix hy)).map _

theorem reads_readHead : Reads readHead
    (Grammar.tags * (kind .feature * (Grammar.heading * (Grammar.description *
      Grammar.background.opt)))) EndsHead := by
  have hkeyword : Reads (take (· = .feature) (ParseError.unexpected .feature)) (kind .feature)
      fun _ => True := Reads.take rfl (by decide) fun _ => rfl
  exact reads_readTags.andThen (fun tags => hkeyword.andThen (reads_readHeadFrom tags)
    fun _ _ _ _ => trivial) (Part.Opens.mul_left (Part.Opens.kind rfl))

theorem resumes_readHead (hxs : ClosedLines xs) : Resumes readHead xs := by
  have hkeyword : Reads (take (· = .feature) (ParseError.unexpected .feature)) (kind .feature)
      fun _ => True := Reads.take rfl (by decide) fun _ => rfl
  have hfrom : ∀ tags keyword ts, (readHeadFrom tags keyword ts).rest <:+ ts :=
    fun tags keyword => (reads_readHeadFrom tags keyword).rest_suffix
  refine Resumes.andThen_of_ne (R := fun ts => .ok (readTags ts)) reads_readTags
    (fun tags ts => Parsed.rest_andThen_suffix (hkeyword.rest_suffix ts) (hfrom tags))
    (fun he _ hok => ?_) fun tags x hx _ => ?_
  · -- tags alone do not make a feature
    obtain ⟨t, _, htake, -⟩ := Parsed.andThen_eq_ok.1 hok
    exact take_end_ne (by decide) he htake
  · have hx := hxs.of_suffix hx
    exact .andThen_of_ne hkeyword (hfrom tags)
      (fun _ hok => absurd hok (take_ne_of_closedLines (by decide) (by decide) hx))
      fun keyword y hy _ => resumes_readHeadFrom tags keyword (hx.of_suffix hy)

theorem isTrivia_of_readHead {ts rest : List Token} {feature : Feature}
    (h : readHead ts = .ok (feature, rest)) : (peek rest).kind.isTrivia = false := by
  rw [readHead, Parsed.ok_andThen] at h
  obtain ⟨keyword, r₁, -, h⟩ := Parsed.andThen_eq_ok.1 h
  obtain ⟨title, r₂, -, h⟩ := Parsed.andThen_eq_ok.1 h
  rw [Parsed.ok_andThen] at h
  obtain ⟨background, r₃, hback, heq⟩ := Parsed.andThen_eq_ok.1 h
  cases heq
  exact isTrivia_of_readBackground? (isTrivia_readDescription r₂) hback

/-- **Further entries are read as if they stood alone**, and nothing else changes in the feature. -/
theorem read_append {e : Token} {r rest : List Token} {feature : Feature} {more : List Entry}
    (hxs : ClosedLines xs) (he : e.kind = .eof) (h : read (xs ++ [e]) = .ok (feature, [e]))
    (hr : BeforeEntry r) (hmore : Entry.readAll (skipTrivia r) = .ok (more, rest)) :
    read (xs ++ r) = .ok ({ feature with scenarios := feature.scenarios ++ more }, rest) := by
  have hrest : ∀ (feature : Feature) ts, ((Entry.readAll ts).andThen fun scenarios rest =>
      .ok ({ feature with scenarios }, rest)).rest <:+ ts := fun feature ts =>
    Parsed.rest_andThen_suffix (Entry.reads_readAll.rest_suffix ts) fun _ _ => List.suffix_rfl
  rw [read_eq_readHead] at h
  obtain ⟨head, x, r₁, hx, hentries, hhead, hr₁⟩ :=
    Resumes.exists_of_andThen reads_readHead hrest (resumes_readHead hxs) he h hr
  obtain ⟨entries, _, hall, heq⟩ := Parsed.andThen_eq_ok.1 hentries
  cases heq
  have htrivia : x = [] → (peek r₁).kind.isTrivia = false := by
    rintro rfl
    exact isTrivia_of_readHead hhead
  have hall₁ :=
    Entry.readAll_append (hxs.of_suffix hx) he hall (hr.of_eq hr₁) htrivia (hr₁ ▸ hmore)
  rw [read_eq_readHead]
  exact Parsed.andThen_eq_ok.2 ⟨head, _, hhead, Parsed.andThen_eq_ok.2 ⟨_, _, hall₁, rfl⟩⟩

/-- The entries of a feature are those that stand alone after its head. -/
theorem readAll_of_read_append {e : Token} {r rest : List Token} {head feature : Feature}
    (hxs : ClosedLines xs) (he : e.kind = .eof) (hhead : readHead (xs ++ [e]) = .ok (head, [e]))
    (hr : BeforeEntry r) (h : read (xs ++ r) = .ok (feature, rest)) :
    Entry.readAll (skipTrivia r) = .ok (feature.scenarios, rest) := by
  obtain ⟨r₁, hhead₁, hr₁⟩ := resumes_readHead hxs he hhead hr
  rw [skipTrivia_eq_self (isTrivia_of_readHead hhead₁)] at hr₁
  subst hr₁
  rw [read_eq_readHead, hhead₁, Parsed.ok_andThen] at h
  obtain ⟨scenarios, _, hall, heq⟩ := Parsed.andThen_eq_ok.1 h
  cases heq
  exact hall

end Feature

end FeatureDoc
