import FeatureDoc.Proofs.Grammar.Steps
import FeatureDoc.Proofs.Step.Segments

/-!
# Placeholders and data of a step

The text of a step has one data placeholder for each number and string of its tokens, in order, and
scanning the text finds just these.

* `Written s segs ds` says that the text of `s` was written from the well-spaced segments `segs`,
  and that its data placeholders and its data are the two columns of `ds`.
* `StepText.written_add` is the step lemma: adding a token keeps this, and appends the datum of the
  token. `StepText.written_readLine` is the run over a line.
* `Step.written_of_read` is the main statement, about all tokens of a step: its line, its table and
  its block of text.
-/

namespace FeatureDoc

theorem filterMap_cons_toList {α β : Type} (f : α → Option β) (a : α) (l : List α) :
    (a :: l).filterMap f = (f a).toList ++ l.filterMap f := by
  cases h : f a <;> simp [h]

/-- The data placeholder of a segment. -/
def Segment.dataMark? : Segment → Option Placeholder
  | .mark .number => some .number
  | .mark .string => some .string
  | _ => none

/-- The data placeholders of a text, in order. -/
def dataMarks (segs : List Segment) : List Placeholder := segs.filterMap Segment.dataMark?

theorem dataMarks_append (segs segs' : List Segment) :
    dataMarks (segs ++ segs') = dataMarks segs ++ dataMarks segs' := List.filterMap_append

section Chars

variable {β : Type} {f : Segment → Option β} (hf : ∀ c, f (.char c) = none)

include hf

/-! What is collected from the placeholders does not depend on the prose around them. -/

theorem filterMap_map_char (cs : List Char) : (cs.map Segment.char).filterMap f = [] := by
  induction cs with
  | nil => rfl
  | cons c cs ih => rw [List.map_cons, List.filterMap_cons_none (hf c), ih]

theorem filterMap_dropWhile_isSpace (segs : List Segment) :
    (segs.dropWhile Segment.isSpace).filterMap f = segs.filterMap f := by
  induction segs with
  | nil => rfl
  | cons a segs ih =>
    by_cases ha : a.isSpace = true
    · rw [List.dropWhile_cons_of_pos ha, ih]
      cases a with
      | char c => rw [List.filterMap_cons_none (hf c)]
      | mark p => cases ha
    · rw [List.dropWhile_cons_of_neg ha]

theorem filterMap_trimSegments (segs : List Segment) :
    (trimSegments segs).filterMap f = segs.filterMap f := by
  rw [trimSegments, List.filterMap_reverse, filterMap_dropWhile_isSpace hf, List.filterMap_reverse,
    List.reverse_reverse, filterMap_dropWhile_isSpace hf]

end Chars

theorem dataMarks_map_char (cs : List Char) : dataMarks (cs.map Segment.char) = [] :=
  filterMap_map_char (fun _ => rfl) cs

theorem dataMarks_trimSegments (segs : List Segment) :
    dataMarks (trimSegments segs) = dataMarks segs :=
  filterMap_trimSegments (fun _ => rfl) segs

/-! ## Appending to well-spaced segments -/

theorem isChain_toList_append (o : Option Char) {cs : List Char} (h : cs.IsChain Apart)
    (hplain : ∀ c ∈ cs.head?, IsPlain c) : (o.toList ++ cs).IsChain Apart := by
  cases o with
  | none => exact h
  | some a => exact h.cons fun c hc => Apart.of_right (hplain c hc)

theorem Segment.meets_of_isPlain (a : Segment) {c : Char} (h : IsPlain c) :
    Segment.Meets a (.char c) := by
  cases a with
  | char b => exact Apart.of_right h
  | mark p => exact h

namespace WellSpaced

theorem nil : WellSpaced [] := ⟨List.isChain_nil, by simp⟩

theorem append {segs segs' : List Segment} (h : WellSpaced segs) (h' : WellSpaced segs')
    (hmeets : ∀ a ∈ segs.getLast?, ∀ b ∈ segs'.head?, Segment.Meets a b) :
    WellSpaced (segs ++ segs') := by
  refine ⟨h.isChain.append h'.isChain hmeets, fun hmem => ?_⟩
  rcases List.mem_append.1 hmem with hmem | hmem
  · exact h.name hmem
  · exact h'.name hmem

theorem map_char {cs : List Char} (h : cs.IsChain Apart) : WellSpaced (cs.map Segment.char) :=
  ⟨(List.isChain_map _).2 h, by simp⟩

/-- A placeholder after a plain character, with plain characters after it. -/
theorem mark {p : Placeholder} (hname : ∀ {name}, p = .reference name → '>' ∉ name) {c : Char}
    (hc : IsPlain c) {cs : List Char} (hcs : ∀ c ∈ cs, IsPlain c) :
    WellSpaced (.char c :: .mark p :: cs.map Segment.char) := by
  refine ⟨List.isChain_cons_cons.2 ⟨hc, ?_⟩, fun hmem => ?_⟩
  · apply (map_char (isChain_apart_of_forall hcs)).isChain.cons
    intro b hb
    obtain ⟨d, hd, rfl⟩ := List.mem_map.1 (List.mem_of_mem_head? hb)
    exact hcs d hd
  · simp only [List.mem_cons, reduceCtorEq, Segment.mark.injEq, List.mem_map, and_false,
      exists_false, or_false, false_or] at hmem
    exact hname hmem.symm

end WellSpaced

/-! ## One token -/

/-- The text of `s` was written from `segs`, and its data placeholders with its data are `ds`. -/
structure Written (s : StepText) (segs : List Segment) (ds : List (Placeholder × String)) :
    Prop where
  /-- The text is that of the segments. -/
  text : s.text = segs.flatMap Segment.chars
  /-- The text is scanned back into the segments. -/
  wellSpaced : WellSpaced segs
  /-- The data placeholders are the first column. -/
  marks : dataMarks segs = ds.map Prod.fst
  /-- The data are the second column. -/
  data : s.data = ds.map Prod.snd

/-- A text may end with a placeholder only in front of a datum, which brings a space of its own. -/
def EndsOpen (segs : List Segment) (next : Token) : Prop :=
  ∀ p, segs.getLast? = some (.mark p) → next.kind.isData = true

/-- In front of anything but a datum, the text does not end with a placeholder. -/
theorem EndsOpen.ne_mark {segs : List Segment} {t : Token} (h : EndsOpen segs t)
    (ht : t.kind.isData = false) (p : Placeholder) : segs.getLast? ≠ some (.mark p) := by
  intro hp
  rw [h p hp] at ht
  cases ht

theorem EndsOpen.append_chars {segs : List Segment}
    (hopen : ∀ p, segs.getLast? ≠ some (.mark p)) (cs : List Char) (next : Token) :
    EndsOpen (segs ++ cs.map .char) next := by
  intro p hp
  rcases List.eq_nil_or_concat' cs with rfl | ⟨init, c, rfl⟩
  · exact absurd (by simpa using hp) (hopen p)
  · simp [List.getLast?_append] at hp

/-- The segments that a placeholder adds: a space before it, and one after it unless more data
follow. -/
def Placeholder.spaced (p : Placeholder) (next : Token) : List Segment :=
  .char ' ' :: .mark p :: (if next.kind.isData then [] else [' ']).map .char

theorem StepText.text_putMark (s : StepText) (p : Placeholder) (next : Token) :
    (s.putMark p next).text = s.text ++ (p.spaced next).flatMap Segment.chars := by
  simp [putMark, Placeholder.spaced, Segment.chars, List.flatMap_map]

theorem EndsOpen.spaced (segs : List Segment) (p : Placeholder) (next : Token) :
    EndsOpen (segs ++ p.spaced next) next := by
  intro q hq
  by_contra hnext
  rw [Bool.not_eq_true] at hnext
  simp [Placeholder.spaced, hnext] at hq

/-- **A tag or a piece of prose is appended in characters that keep apart from the end of the
text**, and they depend on nothing else in it. -/
theorem StepText.exists_chars_of_add {s s' : StepText} {t next : Token}
    (hs : s.add t next = .ok s') (ht : t.Spelled) (hk : t.kind = .tag ∨ t.kind.isProse = true) :
    ∃ cs, (s.text.getLast?.toList ++ cs).IsChain Apart ∧
      ∀ u : StepText, u.text.getLast? = s.text.getLast? → ∀ next',
        u.add t next' = .ok { u with text := u.text ++ cs } := by
  rcases hk with hk | hk
  · set gap : List Char := if s.text.isEmpty || s.text.getLast? == some ' ' then [] else [' ']
      with hgap
    have hplain : ∀ c ∈ gap ++ '@' :: t.literal.toList, IsPlain c := by
      intro c hc
      rcases List.mem_append.1 hc with hc | hc
      · rw [hgap] at hc
        split at hc
        · cases hc
        · rw [List.mem_singleton.1 hc]
          decide
      · rcases List.mem_cons.1 hc with rfl | hc
        · decide
        · exact IsPlain.of_isTagChar (ht.tag hk c hc)
    refine ⟨_, isChain_toList_append _ (isChain_apart_of_forall hplain) fun c hc =>
      hplain c (List.mem_of_mem_head? hc), fun u hlast next' => ?_⟩
    have hempty : u.text.isEmpty = s.text.isEmpty := by
      rw [Bool.eq_iff_iff, List.isEmpty_iff, List.isEmpty_iff, ← List.getLast?_eq_none_iff, hlast,
        List.getLast?_eq_none_iff]
    simp only [add, hk, putTag, hempty, hlast, List.append_assoc]
    rfl
  · rw [add_of_isProse hk] at hs
    split at hs
    · cases hs
    next hd =>
    rw [Bool.not_eq_true] at hd
    have hadd : ∀ cs, (∀ text, text.getLast? = s.text.getLast? →
        Text.joinWord text t.literal.toList = text ++ cs) → ∀ u : StepText,
          u.text.getLast? = s.text.getLast? → ∀ next',
            u.add t next' = .ok { u with text := u.text ++ cs } := by
      intro cs hcs u hlast next'
      have hu : u.formsDelimiter t.literal.toList = false := by
        rw [formsDelimiter, hlast]
        exact hd
      rw [add_of_isProse hk, hu, hcs _ hlast]
      rfl
    rw [formsDelimiter, hasDelimiter_eq_false_iff] at hd
    by_cases hmeet : (s.text.getLast?.any Text.isWordChar &&
        t.literal.toList.head?.any Text.isWordChar) = true
    · have hspace : (' ' :: t.literal.toList).IsChain Apart :=
        (List.isChain_append.1 hd).2.1.cons fun _ _ => Apart.of_left (by decide)
      refine ⟨_, isChain_toList_append _ hspace fun c hc => ?_, hadd _ fun text hlast => ?_⟩
      · rw [← Option.some.inj hc]
        decide
      · rw [Text.joinWord, hlast, if_pos hmeet]
    · refine ⟨_, hd, hadd _ fun text hlast => ?_⟩
      rw [Text.joinWord, hlast, if_neg hmeet]

namespace Written

variable {s : StepText} {segs : List Segment} {ds : List (Placeholder × String)}

theorem empty : Written StepText.empty [] [] := ⟨rfl, WellSpaced.nil, rfl, rfl⟩

/-- The last character of the text is that of the last segment. -/
theorem getLast?_text (h : Written s segs ds) (hopen : ∀ p, segs.getLast? ≠ some (.mark p)) :
    segs.getLast? = s.text.getLast?.map Segment.char := by
  rw [h.text]
  rcases List.eq_nil_or_concat' segs with rfl | ⟨init, a, rfl⟩
  · rfl
  · cases a with
    | char c => simp [List.flatMap_append, Segment.chars]
    | mark p => exact absurd List.getLast?_concat (hopen p)

/-- Prose is appended if its first character keeps apart from the last one so far. -/
theorem append_chars (h : Written s segs ds) (hopen : ∀ p, segs.getLast? ≠ some (.mark p))
    {cs : List Char} (hcs : (s.text.getLast?.toList ++ cs).IsChain Apart) :
    Written { s with text := s.text ++ cs } (segs ++ cs.map .char) ds := by
  obtain ⟨-, hchain, hmeets⟩ := List.isChain_append.1 hcs
  refine ⟨?_, h.wellSpaced.append (.map_char hchain) fun a ha b hb => ?_, ?_, h.data⟩
  · rw [h.text, List.flatMap_append, List.flatMap_map]
    simp [Segment.chars]
  · rw [h.getLast?_text hopen] at ha
    obtain ⟨x, hx, rfl⟩ := Option.map_eq_some_iff.1 ha
    rw [List.head?_map] at hb
    obtain ⟨y, hy, rfl⟩ := Option.map_eq_some_iff.1 hb
    exact hmeets x (by rw [hx]; rfl) y hy
  · rw [dataMarks_append, dataMarks_map_char, List.append_nil, h.marks]

/-- A placeholder is appended with its spaces, and `ds'` are the data that come with it. -/
theorem putMark (h : Written s segs ds) {p : Placeholder}
    (hname : ∀ {name}, p = .reference name → '>' ∉ name) {next : Token} {s' : StepText}
    {ds' : List (Placeholder × String)} (htext : s'.text = (s.putMark p next).text)
    (hmark : (Segment.mark p).dataMark?.toList = ds'.map Prod.fst)
    (hdata : s'.data = s.data ++ ds'.map Prod.snd) :
    Written s' (segs ++ p.spaced next) (ds ++ ds') := by
  have hplain : ∀ c ∈ (if next.kind.isData then [] else [' ']), IsPlain c := by
    intro c hc
    split at hc
    · cases hc
    · rw [List.mem_singleton.1 hc]
      decide
  refine ⟨?_, ?_, ?_, ?_⟩
  · rw [htext, StepText.text_putMark, h.text, List.flatMap_append]
  · apply h.wellSpaced.append (.mark hname (by decide) hplain)
    intro a _ b hb
    rw [← Option.some.inj hb]
    exact a.meets_of_isPlain (by decide)
  · rw [dataMarks_append, h.marks, List.map_append, ← hmark]
    apply congrArg (ds.map Prod.fst ++ ·)
    rw [Placeholder.spaced, ← List.singleton_append (x := Segment.char ' '),
      ← List.singleton_append (x := Segment.mark p), dataMarks_append, dataMarks_append,
      dataMarks_map_char, List.append_nil]
    cases p <;> rfl
  · rw [hdata, h.data, List.map_append]

end Written

namespace StepText

/-- **Adding a token keeps text and data aligned**, and adds the datum of the token. -/
theorem written_add {s s' : StepText} {segs : List Segment} {ds : List (Placeholder × String)}
    {t next : Token} (h : Written s segs ds) (hopen : EndsOpen segs t) (ht : t.Spelled)
    (hs : s.add t next = .ok s') :
    ∃ segs', Written s' segs' (ds ++ t.datum?.toList) ∧ EndsOpen segs' next := by
  obtain ⟨p, hp, hdata, rfl⟩ | ⟨hk, -, rfl⟩ | ⟨hk, rfl⟩ | hk := add_cases hs
  · rw [hp]
    refine ⟨_, h.putMark ?_ rfl ?_ rfl, .spaced segs p next⟩
    · rintro name rfl
      cases hdata
    · cases p with
      | number => rfl
      | string => rfl
      | reference name => cases hdata
  · rw [Token.datum?_eq_none (Or.inl hk)]
    refine ⟨_, h.putMark ?_ rfl rfl (List.append_nil _).symm, .spaced segs _ next⟩
    rintro name hname
    cases hname
    exact ht.reference hk
  · rw [Token.datum?_eq_none (Or.inr (Or.inl hk)), Option.toList_none, List.append_nil]
    have hlast := hopen.ne_mark (Kind.isData_eq_false (Or.inl hk))
    exact ⟨segs, h, fun p hp => absurd hp (hlast p)⟩
  · replace hk : t.kind = .tag ∨ t.kind.isProse = true := hk.imp And.left And.left
    obtain ⟨cs, hcs, hadd⟩ := exists_chars_of_add hs ht hk
    have heq := hs.symm.trans (hadd s rfl next)
    cases heq
    rw [Token.datum?_eq_none (Or.inr (Or.inr hk)), Option.toList_none, List.append_nil]
    have hlast := hopen.ne_mark (Kind.isData_eq_false (Or.inr hk))
    exact ⟨_, h.append_chars hlast hcs, .append_chars hlast cs next⟩

/-- Text and data stay aligned over a line. -/
theorem written_readLine {s s' : StepText} {segs : List Segment} {ds : List (Placeholder × String)}
    {ts rest : List Token} (h : Written s segs ds) (hopen : EndsOpen segs (peek ts))
    (hts : ∀ t ∈ takeLine ts, t.Spelled) (hs : s.readLine ts = .ok (s', rest)) :
    ∃ segs', Written s' segs' (ds ++ (takeLine ts).filterMap Token.datum?) := by
  induction ts generalizing s segs ds with
  | nil =>
    cases hs
    exact ⟨segs, by simpa [takeLine] using h⟩
  | cons t ts ih =>
    by_cases ht : t.kind.endsLine = true
    · rw [readLine_of_endsLine s (t :: ts) ht] at hs
      cases hs
      exact ⟨segs, by simpa [takeLine_cons_of_endsLine ht] using h⟩
    · rw [Bool.not_eq_true] at ht
      rw [takeLine_cons ht] at hts ⊢
      rw [readLine_cons ht] at hs
      split at hs
      · next s₁ hadd =>
        obtain ⟨segs₁, h₁, hopen₁⟩ := written_add h hopen (hts t List.mem_cons_self) hadd
        obtain ⟨segs', h'⟩ := ih h₁ hopen₁ (fun u hu => hts u (List.mem_cons_of_mem t hu)) hs
        rw [filterMap_cons_toList, ← List.append_assoc]
        exact ⟨segs', h'⟩
      · cases hs

theorem written_trim {s : StepText} {segs : List Segment} {ds : List (Placeholder × String)}
    (h : Written s segs ds) : Written s.trim (trimSegments segs) ds where
  text := by rw [trim, h.text, trim_flatMap_chars]
  wellSpaced := h.wellSpaced.of_isInfix (trimSegments_isInfix segs)
  marks := by rw [dataMarks_trimSegments, h.marks]
  data := h.data

/-- A block of text leaves a placeholder on a line of its own. -/
theorem written_putBlock {s : StepText} {segs : List Segment} {ds : List (Placeholder × String)}
    (h : Written s segs ds) (block : String) :
    Written (s.putBlock block) (segs ++ [.char '\n', .mark .string])
      (ds ++ [(.string, block)]) where
  text := by simp [putBlock, putDatum, h.text, Segment.chars]
  wellSpaced := by
    have hblock : WellSpaced [.char '\n', .mark .string] := by
      refine WellSpaced.mark (fun {name} hname => ?_) (by decide) (List.forall_mem_nil _)
      cases hname
    apply h.wellSpaced.append hblock
    intro a _ b hb
    rw [← Option.some.inj hb]
    exact a.meets_of_isPlain (by decide)
  marks := by
    rw [dataMarks_append, h.marks, List.map_append]
    rfl
  data := by simp [putBlock, putDatum, h.data]

end StepText

/-! ## Whole steps -/

namespace Step

/-- The tokens that are read for a table hold no data of the step. -/
theorem filterMap_datum?_of_readTable? {xs rest : List Token} {table : Option Table}
    (hxs : ∀ t ∈ xs, t.Spelled) (h : readTable? (xs ++ rest) = .ok (table, rest)) :
    xs.filterMap Token.datum? = [] := by
  have hwithin : Grammar.table.opt.Within fun k => k = .tableData ∨ k = .newline :=
    (Grammar.table_within (Or.inl rfl) (Or.inr rfl)).add Part.Within.one
  obtain ⟨ys, hys, hkinds⟩ := hwithin _ _ (reads_readTable?.sound hxs h)
  obtain rfl := List.append_cancel_right hys
  apply List.filterMap_eq_nil_iff.2
  intro t ht
  rcases hkinds t ht with hk | hk <;> simp [Token.datum?, hk]

theorem exists_append_skipNewline (ts : List Token) :
    ∃ xs, ts = xs ++ skipNewline ts ∧ xs.filterMap Token.datum? = [] := by
  by_cases h : (peek ts).kind = .newline
  · rcases ts with _ | ⟨t, ts⟩
    · cases h
    · have ht : t.kind = .newline := h
      rw [skipNewline_cons_of_newline ht]
      exact ⟨[t], rfl, by simp [Token.datum?, ht]⟩
  · exact ⟨[], by rw [skipNewline_of_ne_newline h, List.nil_append], rfl⟩

/-- The block of text below a step is a datum. -/
theorem written_readBlock {s : StepText} {segs : List Segment} {ds : List (Placeholder × String)}
    (h : Written s segs ds) (ts : List Token) :
    ∃ xs segs', ts = xs ++ (readBlock s ts).2 ∧
      Written (readBlock s ts).1 segs' (ds ++ xs.filterMap Token.datum?) := by
  unfold readBlock
  by_cases hk : (peek ts).kind = .docString
  · rw [if_pos hk]
    rcases ts with _ | ⟨t, ts⟩
    · cases hk
    · have hdatum : [t].filterMap Token.datum? = [(.string, t.literal)] := by
        have ht : t.kind = .docString := hk
        simp [Token.datum?, ht]
      refine ⟨[t], segs ++ [.char '\n', .mark .string], rfl, ?_⟩
      rw [hdatum]
      exact StepText.written_putBlock h t.literal
  · rw [if_neg hk]
    exact ⟨[], segs, rfl, by simpa using h⟩

/-- **The data placeholders of a step and its data are those of its tokens**, in order. -/
theorem written_of_read {keyword : Token} {body rest : List Token} {step : Step}
    (hbody : ∀ t ∈ body, t.Spelled) (h : read keyword (body ++ rest) = .ok (step, rest)) :
    ∃ s segs, step.text = String.ofList s.text ∧ step.data = s.data ∧
      Written s segs (body.filterMap Token.datum?) := by
  obtain ⟨s₁, r₁, table, r₂, hline, htable, rfl, hrest⟩ := read_cases h
  have hr₁ := StepText.rest_of_readLine hline
  obtain ⟨nl, hnl, hnlData⟩ := exists_append_skipNewline r₁
  have hsuffix := rest_readTable?_suffix (skipNewline r₁)
  rw [htable] at hsuffix
  obtain ⟨tab, htab : tab ++ r₂ = skipNewline r₁⟩ := hsuffix
  -- the tokens of the step: the line, its end, the table and the block
  have htokens : ∀ doc, r₂ = doc ++ rest →
      body = takeLine (body ++ rest) ++ (nl ++ (tab ++ doc)) := by
    intro doc hdoc
    have hall : body ++ rest = takeLine (body ++ rest) ++ (nl ++ (tab ++ doc)) ++ rest := by
      conv_lhs => rw [← takeLine_append_dropLine (body ++ rest), ← hr₁, hnl, ← htab, hdoc]
      simp only [List.append_assoc]
    exact List.append_cancel_right hall
  have hspelled : ∀ doc, r₂ = doc ++ rest → ∀ t ∈ takeLine (body ++ rest) ++ (nl ++ (tab ++ doc)),
      t.Spelled := fun doc hdoc => htokens doc hdoc ▸ hbody
  obtain ⟨doc₀, hdoc₀⟩ := readBlock_suffix s₁.trim r₂
  rw [← hrest] at hdoc₀
  obtain ⟨segs₁, hwritten⟩ := StepText.written_readLine Written.empty nofun
    (fun t ht => hspelled doc₀ hdoc₀.symm t (List.mem_append_left _ ht)) hline
  obtain ⟨doc, segs, hdoc, hblock⟩ := written_readBlock (StepText.written_trim hwritten) r₂
  rw [← hrest] at hdoc
  have htable' : tab.filterMap Token.datum? = [] := by
    refine filterMap_datum?_of_readTable? (fun t ht => hspelled doc hdoc t ?_) (htab ▸ htable)
    exact List.mem_append_right _ (List.mem_append_right _ (List.mem_append_left _ ht))
  refine ⟨_, segs, rfl, rfl, ?_⟩
  rw [htokens doc hdoc]
  simpa [hnlData, htable'] using hblock

end Step

end FeatureDoc
