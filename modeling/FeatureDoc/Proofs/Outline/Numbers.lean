import FeatureDoc.Proofs.Document.Alignment

/-!
# Numbers that are filled in before or after reading

Where all references of a step stand for numbers, the values of a row can be filled in twice over:
into the tokens, and the step is read from those, or into the step that was read, whose text is
scanned for its placeholders. Both give the same text and the same data.

* `Token.fill r` is a token with the values of a row.
* `Fills r s s' segs es` relates the two texts under construction: they have the same segments, but
  the second one has a number in place of each reference, and each placeholder stands for the value
  that the row gives it.
* `Fills.add` is the step lemma, about one more token, and `Fills.readLine` the run over a line.
* `Fills.substitute_eq` says that substitution takes the first text to the second one, and
  `Step.read_fill` is the main statement.
-/

namespace FeatureDoc

/-! ## Filling in tokens -/

/-- The row has a number in this column. -/
def Record.NumberAt (r : Record) (name : String) : Prop :=
  ∃ value, r.get? name = some value ∧ isNumber value.toList = true

instance (r : Record) (name : String) : Decidable (r.NumberAt name) :=
  decidable_of_iff ((r.get? name).any fun value : String => isNumber value.toList)
    (Option.any_eq_true _ _)

/-- The token with the values of a row. A reference to a column becomes a number, and in a string
or a block the known names are filled in. -/
def Token.fill (r : Record) (t : Token) : Token :=
  match t.kind with
  | .exampleValue =>
    (r.get? t.literal).elim t fun value => { t with kind := .number, literal := value }
  | .string | .docString => { t with literal := r.fill t.literal }
  | _ => t

/-- The placeholder after the references have become numbers. -/
def Placeholder.resolved : Placeholder → Placeholder
  | .reference _ => .number
  | p => p

/-- What a placeholder stands for with the values of a row. -/
def Record.valueFor (r : Record) : Placeholder × String → String
  | (.reference _, name) => (r.get? name).getD name
  | (_, datum) => r.fill datum

namespace Token

variable (r : Record) (t : Token)

/-- Only a reference changes its kind. -/
theorem kind_fill_cases :
    (t.fill r).kind = t.kind ∨ t.kind = .exampleValue ∧ (t.fill r).kind = .number := by
  unfold fill
  split
  · next hk =>
    cases r.get? t.literal with
    | none => exact Or.inl rfl
    | some value => exact Or.inr ⟨hk, rfl⟩
  · exact Or.inl rfl
  · exact Or.inl rfl
  · exact Or.inl rfl

theorem isData_fill : (t.fill r).kind.isData = t.kind.isData := by
  rcases t.kind_fill_cases r with h | ⟨hk, h⟩
  · rw [h]
  · rw [h, hk]
    rfl

theorem endsLine_fill : (t.fill r).kind.endsLine = t.kind.endsLine := by
  rcases t.kind_fill_cases r with h | ⟨hk, h⟩
  · rw [h]
  · rw [h, hk]
    rfl

variable {t}

theorem fill_of_mark?_eq_none (h : t.mark? = none) : t.fill r = t := by
  unfold mark? datum? at h
  unfold fill
  cases hk : t.kind <;> simp_all

theorem isData_of_datum? {d : Placeholder × String} (h : t.datum? = some d) :
    d.1.isData = true := by
  unfold datum? at h
  split at h
  · exact Option.some.inj h ▸ rfl
  · exact Option.some.inj h ▸ rfl
  · exact Option.some.inj h ▸ rfl
  · cases h

/-- A token that leaves a placeholder becomes a datum. -/
theorem datum?_fill {e : Placeholder × String} (h : t.mark? = some e) (ht : t.Spelled)
    (hr : t.kind = .exampleValue → r.NumberAt t.literal) :
    (t.fill r).datum? = some (e.1.resolved, r.valueFor e) := by
  by_cases hk : t.kind = .exampleValue
  · obtain ⟨value, hvalue, -⟩ := hr hk
    rw [mark?, if_pos hk] at h
    cases h
    simp [fill, hk, hvalue, datum?, Placeholder.resolved, Record.valueFor]
  · rw [mark?, if_neg hk] at h
    have hnumber : ∀ p d, t.datum? = some (p, d) → p = .number → isNumber d.toList = true :=
      fun p d => isNumber_of_datum? ht
    unfold datum? at h hnumber
    split at h
    · next hkind =>
      cases h
      rw [hkind] at hnumber
      simp [fill, hkind, datum?, Placeholder.resolved, Record.valueFor,
        r.fill_of_isNumber (hnumber _ _ rfl rfl)]
    · next hkind =>
      cases h
      simp [fill, hkind, datum?, Placeholder.resolved, Record.valueFor]
    · next hkind =>
      cases h
      simp [fill, hkind, datum?, Placeholder.resolved, Record.valueFor]
    · cases h

end Token

theorem StepText.add_of_datum? {t : Token} {d : Placeholder × String} (h : t.datum? = some d)
    (s : StepText) (next : Token) : s.add t next = .ok ((s.putMark d.1 next).putDatum d.2) := by
  unfold Token.datum? at h
  split at h
  · next hk =>
    cases h
    simp only [add, hk]
  · next hk =>
    cases h
    simp only [add, hk]
  · next hk =>
    cases h
    simp only [add, hk]
  · cases h

theorem Kind.isData_of_endsLine {k : Kind} (h : k.endsLine = true) : k.isData = false := by
  rcases endsLine_iff.1 h with rfl | rfl <;> rfl

/-! ## Two texts with the same segments -/

/-- The placeholder of a segment. -/
def Segment.mark? : Segment → Option Placeholder
  | .char _ => none
  | .mark p => some p

/-- The segment after the references have become numbers. -/
def Segment.resolved : Segment → Segment
  | .char c => .char c
  | .mark p => .mark p.resolved

/-- The text of segments in which the references have become numbers. -/
def resolvedChars (segs : List Segment) : List Char :=
  (segs.map Segment.resolved).flatMap Segment.chars

theorem resolvedChars_append (segs segs' : List Segment) :
    resolvedChars (segs ++ segs') = resolvedChars segs ++ resolvedChars segs' := by
  rw [resolvedChars, List.map_append, List.flatMap_append, resolvedChars, resolvedChars]

theorem resolvedChars_map_char (cs : List Char) : resolvedChars (cs.map .char) = cs := by
  induction cs with
  | nil => rfl
  | cons c cs ih => exact congrArg (c :: ·) ih

theorem resolvedChars_spaced (p : Placeholder) {next next' : Token}
    (h : next'.kind.isData = next.kind.isData) :
    resolvedChars (p.spaced next) = (p.resolved.spaced next').flatMap Segment.chars := by
  rw [Placeholder.spaced, Placeholder.spaced, h]
  cases next.kind.isData <;> rfl

/-- All placeholders end with a brace, so the last character is the same. -/
theorem getLast?_resolvedChars (segs : List Segment) :
    (resolvedChars segs).getLast? = (segs.flatMap Segment.chars).getLast? := by
  rcases List.eq_nil_or_concat' segs with rfl | ⟨init, a, rfl⟩
  · rfl
  · rw [resolvedChars_append, List.flatMap_append, List.getLast?_append, List.getLast?_append]
    cases a with
    | char c => rfl
    | mark p =>
      simp [resolvedChars, Segment.resolved, Segment.chars, Placeholder.getLast?_chars]

theorem trim_resolvedChars (segs : List Segment) :
    Text.trim (resolvedChars segs) = resolvedChars (trimSegments segs) := by
  have hspace : Segment.isSpace ∘ Segment.resolved = Segment.isSpace := by
    funext a
    cases a <;> rfl
  rw [resolvedChars, trim_flatMap_chars, trimSegments, List.dropWhile_map, hspace,
    ← List.map_reverse, List.dropWhile_map, hspace, ← List.map_reverse]
  rfl

/-- The second text is the first one with the values of a row. The placeholders of the first text,
with what they stand for, are `es`. -/
structure Fills (r : Record) (s s' : StepText) (segs : List Segment)
    (es : List (Placeholder × String)) : Prop where
  /-- The first text was written from the segments, and its data are those of `es`. -/
  written : Written s segs (es.filter fun e => e.1.isData)
  /-- The placeholders are the first column. -/
  marks : segs.filterMap Segment.mark? = es.map Prod.fst
  /-- The second text has the same segments, with numbers for references. -/
  text : s'.text = resolvedChars segs
  /-- Its data are the values of all placeholders. -/
  data : s'.data = es.map r.valueFor

namespace Fills

variable {r : Record} {s s' s₁ : StepText} {segs : List Segment} {es : List (Placeholder × String)}

theorem empty : Fills r .empty .empty [] [] := ⟨.empty, rfl, rfl, rfl⟩

/-- Both texts end alike. -/
theorem getLast? (h : Fills r s s' segs es) : s'.text.getLast? = s.text.getLast? := by
  rw [h.text, h.written.text, getLast?_resolvedChars]

theorem append_chars (h : Fills r s s' segs es) (hopen : ∀ p, segs.getLast? ≠ some (.mark p))
    {cs : List Char} (hcs : (s.text.getLast?.toList ++ cs).IsChain Apart) :
    Fills r { s with text := s.text ++ cs } { s' with text := s'.text ++ cs }
      (segs ++ cs.map .char) es where
  written := h.written.append_chars hopen hcs
  marks := by rw [List.filterMap_append, filterMap_map_char fun _ => rfl, List.append_nil, h.marks]
  text := by rw [resolvedChars_append, resolvedChars_map_char, h.text]
  data := h.data

/-- A placeholder is appended to the first text, and a datum to the second one. -/
theorem putMark (h : Fills r s s' segs es) {e : Placeholder × String}
    (hname : ∀ {name}, e.1 = .reference name → '>' ∉ name) {next next' : Token}
    (hnext : next'.kind.isData = next.kind.isData) (htext : s₁.text = (s.putMark e.1 next).text)
    (hdata : s₁.data = s.data ++ ([e].filter fun e => e.1.isData).map Prod.snd) :
    Fills r s₁ ((s'.putMark e.1.resolved next').putDatum (r.valueFor e)) (segs ++ e.1.spaced next)
      (es ++ [e]) where
  written := by
    rw [List.filter_append]
    refine h.written.putMark hname htext ?_ hdata
    obtain ⟨p, d⟩ := e
    cases p <;> rfl
  marks := by
    rw [List.filterMap_append, h.marks, List.map_append, Placeholder.spaced]
    refine congrArg (es.map Prod.fst ++ ·) ?_
    exact congrArg (e.1 :: ·) (filterMap_map_char (fun _ => rfl) _)
  text := by
    rw [resolvedChars_append, resolvedChars_spaced e.1 hnext, ← h.text]
    exact StepText.text_putMark s' _ next'
  data := by
    rw [List.map_append, ← h.data]
    rfl

/-- **One more token** that the first text takes is taken by the second one, too. -/
theorem add (h : Fills r s s' segs es) {t next next' : Token} (hopen : EndsOpen segs t)
    (ht : t.Spelled) (hr : t.kind = .exampleValue → r.NumberAt t.literal)
    (hnext : next'.kind.isData = next.kind.isData) (hs : s.add t next = .ok s₁) :
    ∃ s₁' segs₁, s'.add (t.fill r) next' = .ok s₁' ∧
      Fills r s₁ s₁' segs₁ (es ++ t.mark?.toList) ∧ EndsOpen segs₁ next := by
  have hmark : ∀ {e}, t.mark? = some e →
      s'.add (t.fill r) next' = .ok ((s'.putMark e.1.resolved next').putDatum (r.valueFor e)) :=
    fun he => StepText.add_of_datum? (Token.datum?_fill r he ht hr) s' next'
  obtain ⟨p, hp, hdata, rfl⟩ | ⟨hk, -, rfl⟩ | ⟨hk, rfl⟩ | hk := StepText.add_cases hs
  · have he : t.mark? = some (p, t.literal) := by
      rw [Token.mark?, if_neg, hp]
      intro hk
      rw [Token.datum?_eq_none (Or.inl hk)] at hp
      cases hp
    rw [he]
    refine ⟨_, _, hmark he, h.putMark ?_ hnext rfl ?_, .spaced segs p next⟩
    · rintro name rfl
      cases hdata
    · simp [StepText.putMark, StepText.putDatum, hdata]
  · have he : t.mark? = some (.reference t.literal.toList, t.literal) := if_pos hk
    rw [he]
    refine ⟨_, _, hmark he, h.putMark ?_ hnext rfl (List.append_nil _).symm, .spaced segs _ next⟩
    rintro name hname
    cases hname
    exact ht.reference hk
  · have he := Token.mark?_eq_none_iff.2 (Or.inl hk)
    rw [he, Token.fill_of_mark?_eq_none r he, Option.toList_none, List.append_nil]
    have hopen' := hopen.ne_mark (Kind.isData_eq_false (Or.inl hk))
    refine ⟨s', segs, ?_, h, fun p hp => absurd hp (hopen' p)⟩
    simp only [StepText.add, hk]
  · replace hk : t.kind = .tag ∨ t.kind.isProse = true := hk.imp And.left And.left
    have he := Token.mark?_eq_none_iff.2 (Or.inr hk)
    obtain ⟨cs, hcs, hadd⟩ := StepText.exists_chars_of_add hs ht hk
    have heq := hs.symm.trans (hadd s rfl next)
    cases heq
    rw [he, Token.fill_of_mark?_eq_none r he, Option.toList_none, List.append_nil]
    have hopen' := hopen.ne_mark (Kind.isData_eq_false (Or.inr hk))
    exact ⟨_, _, hadd s' h.getLast? next', h.append_chars hopen' hcs, .append_chars hopen' cs next⟩

/-- The two texts stay together over a line. -/
theorem readLine {l m m' m₁ : List Token} (hl : ∀ t ∈ l, t.kind.endsLine = false)
    (hm : (peek m).kind.endsLine = true) (hm' : (peek m').kind.endsLine = true)
    (hspelled : ∀ t ∈ l, t.Spelled)
    (hr : ∀ t ∈ l, t.kind = .exampleValue → r.NumberAt t.literal) (h : Fills r s s' segs es)
    (hopen : EndsOpen segs (peek (l ++ m))) (hs : s.readLine (l ++ m) = .ok (s₁, m₁)) :
    ∃ s₁' segs₁, s'.readLine (l.map (Token.fill r) ++ m') = .ok (s₁', m') ∧
      Fills r s₁ s₁' segs₁ (es ++ l.filterMap Token.mark?) := by
  induction l generalizing s s' segs es with
  | nil =>
    rw [List.nil_append, StepText.readLine_of_endsLine s m hm] at hs
    cases hs
    refine ⟨s', segs, StepText.readLine_of_endsLine s' m' hm', ?_⟩
    rwa [List.filterMap_nil, List.append_nil]
  | cons t l ih =>
    rw [List.forall_mem_cons] at hl hspelled hr
    have hnext : (peek (l.map (Token.fill r) ++ m')).kind.isData = (peek (l ++ m)).kind.isData := by
      rcases l with _ | ⟨u, l⟩
      · exact (Kind.isData_of_endsLine hm').trans (Kind.isData_of_endsLine hm).symm
      · exact u.isData_fill r
    have ht : (t.fill r).kind.endsLine = false := (t.endsLine_fill r).trans hl.1
    rw [List.cons_append, StepText.readLine_cons hl.1] at hs
    rw [List.map_cons, List.cons_append, StepText.readLine_cons ht]
    split at hs
    · next s₂ hadd =>
      have hopen' : EndsOpen segs t := hopen
      obtain ⟨s₂', segs₂, hadd', h₂, hopen₂⟩ := h.add hopen' hspelled.1 hr.1 hnext hadd
      obtain ⟨s₁', segs₁, hread, h₁⟩ := ih hl.2 hspelled.2 hr.2 h₂ hopen₂ hs
      refine ⟨s₁', segs₁, by rw [hadd']; exact hread, ?_⟩
      rw [filterMap_cons_toList, ← List.append_assoc]
      exact h₁
    · cases hs

theorem trim (h : Fills r s s' segs es) : Fills r s.trim s'.trim (trimSegments segs) es where
  written := StepText.written_trim h.written
  marks := by rw [filterMap_trimSegments fun _ => rfl, h.marks]
  text := by rw [StepText.trim, h.text, trim_resolvedChars]
  data := h.data

theorem putBlock (h : Fills r s s' segs es) (block : String) :
    Fills r (s.putBlock block) (s'.putBlock (r.fill block))
      (segs ++ [.char '\n', .mark .string]) (es ++ [(.string, block)]) where
  written := by
    rw [List.filter_append]
    exact StepText.written_putBlock h.written block
  marks := by
    rw [List.filterMap_append, h.marks, List.map_append]
    rfl
  text := by
    rw [resolvedChars_append, ← h.text]
    rfl
  data := by
    rw [List.map_append, ← h.data]
    rfl

end Fills

/-! ## Substitution -/

/-- Where all references stand for numbers, substitution puts numbers in place of the references
and gives the values of all placeholders. -/
theorem Record.substitute_of_numberAt {r : Record} {segs : List Segment}
    {es : List (Placeholder × String)} (hmarks : segs.filterMap Segment.mark? = es.map Prod.fst)
    (hr : ∀ e ∈ es, ∀ name, e.1 = .reference name → e.2 = String.ofList name ∧ r.NumberAt e.2)
    (columns : List String) :
    r.substitute columns segs ((es.filter fun e => e.1.isData).map Prod.snd) =
      .ok (resolvedChars segs, es.map r.valueFor) := by
  induction segs generalizing es with
  | nil =>
    obtain rfl : es = [] := List.map_eq_nil_iff.1 hmarks.symm
    rfl
  | cons a segs ih =>
    cases a with
    | char c =>
      rw [substitute, ih hmarks hr]
      rfl
    | mark p =>
      obtain ⟨e, es, rfl, rfl, hmarks'⟩ := List.map_eq_cons_iff.1 hmarks.symm
      rw [List.forall_mem_cons] at hr
      have hmore := ih hmarks'.symm hr.2
      obtain ⟨p, d⟩ := e
      by_cases hp : p.isData = true
      · rw [List.filter_cons, if_pos hp, List.map_cons, substitute_mark hp, List.tail_cons, hmore]
        cases p with
        | number => rfl
        | string => rfl
        | reference name => cases hp
      · obtain ⟨name, rfl⟩ := Placeholder.exists_eq_reference hp
        obtain ⟨rfl, value, hvalue, hnumber⟩ := hr.1 name rfl
        have hresolve : r.resolve columns name = .ok value := by
          simp [resolve, hvalue, hnumber]
        have hfor : r.valueFor (.reference name, String.ofList name) = value := by
          rw [valueFor, hvalue, Option.getD_some]
        rw [List.filter_cons, if_neg hp, substitute, hresolve, hmore, List.map_cons, hfor]
        exact if_pos hnumber

namespace Fills

variable {r : Record} {s s' : StepText} {segs : List Segment} {es : List (Placeholder × String)}

/-- **Substitution takes the first text to the second one.** -/
theorem substitute_eq (h : Fills r s s' segs es)
    (hr : ∀ e ∈ es, ∀ name, e.1 = .reference name → e.2 = String.ofList name ∧ r.NumberAt e.2)
    (columns : List String) :
    r.substitute columns (segments s.text) s.data = .ok (s'.text, s'.data) := by
  rw [h.written.text, h.written.wellSpaced.segments_chars, h.written.data, h.text, h.data]
  exact Record.substitute_of_numberAt h.marks hr columns

end Fills

/-- The references of some tokens stand for numbers if the tokens do. -/
theorem Token.numberAt_of_mem_marks {r : Record} {ts : List Token}
    (hr : ∀ t ∈ ts, t.kind = .exampleValue → r.NumberAt t.literal) :
    ∀ e ∈ ts.filterMap Token.mark?, ∀ name, e.1 = .reference name →
      e.2 = String.ofList name ∧ r.NumberAt e.2 := by
  intro e he name hname
  obtain ⟨t, ht, hmark⟩ := List.mem_filterMap.1 he
  by_cases hk : t.kind = .exampleValue
  · rw [mark?, if_pos hk] at hmark
    cases hmark
    cases hname
    exact ⟨String.ofList_toList.symm, hr t ht hk⟩
  · rw [mark?, if_neg hk] at hmark
    have hdata := isData_of_datum? hmark
    rw [hname] at hdata
    cases hdata

/-! ## Whole steps -/

namespace Step

/-- The line end after a step line stays as it is, and is skipped as before. -/
theorem exists_skipNewline_fill (r : Record) {ts : List Token}
    (h : (peek ts).kind.endsLine = true) :
    ∃ nl, ts = nl ++ skipNewline ts ∧ nl.map (Token.fill r) = nl ∧
      ∀ m, (peek m).kind = (peek (skipNewline ts)).kind →
        skipNewline (nl ++ m) = m ∧ (peek (nl ++ m)).kind.endsLine = true := by
  by_cases hk : (peek ts).kind = .newline
  · rcases ts with _ | ⟨t, ts⟩
    · cases hk
    have ht : t.kind = .newline := hk
    have hmark : t.mark? = none := by simp [Token.mark?, Token.datum?, ht]
    rw [skipNewline_cons_of_newline ht]
    refine ⟨[t], rfl, ?_, fun m _ => ⟨skipNewline_cons_of_newline ht m, h⟩⟩
    rw [List.map_singleton, Token.fill_of_mark?_eq_none r hmark]
  · rw [skipNewline_of_ne_newline hk]
    exact ⟨[], rfl, rfl, fun m hm => ⟨skipNewline_of_ne_newline (hm ▸ hk), hm ▸ h⟩⟩

/-- Whether there is a table depends on the next token only. -/
theorem readTable?_none {ts rest ts' : List Token} (h : readTable? ts = .ok (none, rest))
    (hk : (peek ts').kind = (peek ts).kind) : rest = ts ∧ readTable? ts' = .ok (none, ts') := by
  rw [readTable?_eq] at h ⊢
  rw [hk]
  split at h
  · obtain ⟨_, _, -, heq⟩ := Parsed.andThen_eq_ok.1 h
    cases heq
  · cases h
    exact ⟨rfl, if_neg ‹_›⟩

/-- The block of text below a step is filled in as well. -/
theorem exists_readBlock_fill (r : Record) {s : StepText} {ts rest : List Token}
    (hrest : (readBlock s ts).2 = rest) :
    ∃ doc, ts = doc ++ rest ∧
      (peek (doc.map (Token.fill r) ++ rest)).kind = (peek ts).kind ∧
      ∀ {s' segs es}, Fills r s s' segs es → ∃ s₁' segs₁,
        readBlock s' (doc.map (Token.fill r) ++ rest) = (s₁', rest) ∧
          Fills r (readBlock s ts).1 s₁' segs₁ (es ++ doc.filterMap Token.mark?) := by
  unfold readBlock at hrest ⊢
  by_cases hk : (peek ts).kind = .docString
  · rcases ts with _ | ⟨t, ts⟩
    · cases hk
    rw [if_pos hk] at hrest ⊢
    obtain rfl : ts = rest := hrest
    have ht : t.kind = .docString := hk
    have hfill : t.fill r = { t with literal := r.fill t.literal } := by simp [Token.fill, ht]
    have hmark : t.mark? = some (.string, t.literal) := by simp [Token.mark?, Token.datum?, ht]
    refine ⟨[t], rfl, by rw [List.map_singleton, hfill]; rfl, fun {s' segs es} h => ?_⟩
    refine ⟨s'.putBlock (r.fill t.literal), segs ++ [.char '\n', .mark .string], ?_, ?_⟩
    · rw [List.map_singleton, hfill]
      exact if_pos ht
    · rw [List.filterMap_cons_some hmark, List.filterMap_nil]
      exact h.putBlock t.literal
  · rw [if_neg hk] at hrest ⊢
    obtain rfl : ts = rest := hrest
    refine ⟨[], rfl, rfl, fun {s' segs es} h => ⟨s', segs, if_neg hk, ?_⟩⟩
    rwa [List.filterMap_nil, List.append_nil]

/-- **Numbers can be filled in before or after a step is read.** A step without a table is read
from some tokens of a text, and a row has a number for each reference among them. The tokens with
the values of the row are read, too, and they give the text and the data that substitution gives
for the step. -/
theorem read_fill {source : String} {keyword : Token} {body rest : List Token} {step : Step}
    (h : keyword :: (body ++ rest) <:+ tokens source)
    (hread : read keyword (body ++ rest) = .ok (step, rest)) (htable : step.table = none)
    {r : Record} (hr : ∀ t ∈ body, t.kind = .exampleValue → r.NumberAt t.literal)
    (columns : List String) :
    ∃ text data, r.substitute columns step.segments step.data = .ok (text, data) ∧
      read keyword (body.map (Token.fill r) ++ rest) =
        .ok ({ step with text := String.ofList text, data := data }, rest) := by
  obtain ⟨s₁, r₁, table, r₂, hline, htab, rfl, hrest⟩ := read_cases hread
  obtain rfl : table = none := htable
  obtain rfl := (readTable?_none htab rfl).1
  -- the line, its end and the block of text
  have hends : (peek r₁).kind.endsLine = true := by
    rw [StepText.rest_of_readLine hline]
    exact endsLine_peek_dropLine _
  obtain ⟨nl, hnl, hnlFill, hskip⟩ := exists_skipNewline_fill r hends
  obtain ⟨doc, hdoc, hkind, hblock⟩ := exists_readBlock_fill r hrest.symm
  have hsplit : body ++ rest = takeLine (body ++ rest) ++ r₁ := by
    rw [StepText.rest_of_readLine hline, takeLine_append_dropLine]
  have hl : ∀ t ∈ takeLine (body ++ rest), t.kind.endsLine = false := fun t =>
    endsLine_of_mem_takeLine
  generalize takeLine (body ++ rest) = l at hsplit hl
  obtain rfl : body = l ++ (nl ++ doc) := by
    rw [hnl, hdoc] at hsplit
    exact List.append_cancel_right (by simpa [List.append_assoc] using hsplit)
  have htokens : (l ++ (nl ++ doc)).map (Token.fill r) ++ rest =
      l.map (Token.fill r) ++ (nl ++ (doc.map (Token.fill r) ++ rest)) := by
    rw [List.map_append, List.map_append, hnlFill, List.append_assoc, List.append_assoc]
  have hspelled : ∀ t ∈ l ++ (nl ++ doc) ++ rest, t.Spelled := fun t ht =>
    (stream_tokens source).spelled t (h.subset (List.mem_cons_of_mem _ ht))
  -- the two texts, side by side
  obtain ⟨hskip', hends'⟩ := hskip _ hkind
  rw [hsplit] at hline
  obtain ⟨s₁', segs₁, hline', h₁⟩ := Fills.empty.readLine hl hends hends'
    (fun t ht => hspelled t (by simp [ht])) (fun t ht => hr t (by simp [ht])) nofun hline
  obtain ⟨s₂', segs₂, hblock', h₂⟩ := hblock h₁.trim
  rw [List.nil_append, ← List.filterMap_append] at h₂
  have hnumbers : ∀ t ∈ l ++ doc, t.kind = .exampleValue → r.NumberAt t.literal := by
    intro t ht
    refine hr t ?_
    rcases List.mem_append.1 ht with ht | ht <;> simp [ht]
  refine ⟨s₂'.text, s₂'.data, ?_, ?_⟩
  · have hsub := h₂.substitute_eq (Token.numberAt_of_mem_marks hnumbers) columns
    rwa [← String.toList_ofList (l := (readBlock s₁.trim (skipNewline r₁)).1.text)] at hsub
  · rw [htokens, read, hline', Parsed.ok_andThen, hskip', (readTable?_none htab hkind).2,
      Parsed.ok_andThen, hblock']
    rfl

/-- A reference, a string and a block. The row has no column for the name in the block. -/
theorem read_fill_block :
    read ⟨.step .given, "Given", 1⟩
        ([⟨.number, "12", 1⟩, ⟨.string, "12", 1⟩, ⟨.newline, "\n", 1⟩, ⟨.docString, "<m>", 2⟩] ++
          [⟨.eof, "", 4⟩]) =
      .ok (⟨⟨.step .given, "Given", 1⟩, "\x7b\x7bd\x7d\x7d \x7b\x7bs\x7d\x7d\n\x7b\x7bs\x7d\x7d",
        ["12", "12", "<m>"], none, 1⟩, [⟨.eof, "", 4⟩]) := by
  have hsource : (⟨.step .given, "Given", 1⟩ : Token) ::
      ([⟨.exampleValue, "n", 1⟩, ⟨.string, "<n>", 1⟩, ⟨.newline, "\n", 1⟩,
        ⟨.docString, "<m>", 2⟩] ++ [⟨.eof, "", 4⟩]) <:+
        tokens "Given <n> \"<n>\"\n\"\"\"\n<m>\n\"\"\"" := ⟨[], by decide +kernel⟩
  have hread : read ⟨.step .given, "Given", 1⟩
      ([⟨.exampleValue, "n", 1⟩, ⟨.string, "<n>", 1⟩, ⟨.newline, "\n", 1⟩,
        ⟨.docString, "<m>", 2⟩] ++ [⟨.eof, "", 4⟩]) =
      .ok (⟨⟨.step .given, "Given", 1⟩,
        "\x7b\x7b<n>\x7d\x7d \x7b\x7bs\x7d\x7d\n\x7b\x7bs\x7d\x7d", ["<n>", "<m>"], none, 1⟩,
        [⟨.eof, "", 4⟩]) := by
    decide +kernel
  obtain ⟨text, data, hsub, hfill⟩ :=
    read_fill (r := ⟨[("n", "12")]⟩) hsource hread rfl (by decide +kernel) ["n"]
  have hvalues : Record.substitute ⟨[("n", "12")]⟩ ["n"] (segments ⟨⟨.step .given, "Given", 1⟩,
      "\x7b\x7b<n>\x7d\x7d \x7b\x7bs\x7d\x7d\n\x7b\x7bs\x7d\x7d", ["<n>", "<m>"], none, 1⟩)
        ["<n>", "<m>"] =
      .ok ("\x7b\x7bd\x7d\x7d \x7b\x7bs\x7d\x7d\n\x7b\x7bs\x7d\x7d".toList,
        ["12", "12", "<m>"]) := by
    decide +kernel
  obtain ⟨rfl, rfl⟩ := Prod.mk.inj (Except.ok.inj (hvalues.symm.trans hsub))
  have htokens : List.map (Token.fill ⟨[("n", "12")]⟩) [⟨.exampleValue, "n", 1⟩,
      ⟨.string, "<n>", 1⟩, ⟨.newline, "\n", 1⟩, ⟨.docString, "<m>", 2⟩] =
      [⟨.number, "12", 1⟩, ⟨.string, "12", 1⟩, ⟨.newline, "\n", 1⟩, ⟨.docString, "<m>", 2⟩] := by
    decide +kernel
  rw [htokens, String.ofList_toList] at hfill
  exact hfill

end Step

end FeatureDoc
