import FeatureDoc.Proofs.Token.Stream
import FeatureDoc.Step.Text

/-!
# The prose of a step line

A step line is refused when its prose spells double braces, or when the name in a reference does.
The fold that builds the text of a step looks only at the last character so far; this module says
what the fold accepts in terms of the whole line.

* `Apart` holds of two characters in a row that are not a pair of equal braces;
  `hasDelimiter_eq_false_iff` says that a text is free of double braces when all its neighbours are
  apart, `hasDelimiter_iff` that it has them when two equal braces stand in a row somewhere.
* `StepText.add_cases` says once and for all what adding a token does.
* `prose` is the prose of a line: its tokens joined as in the text of the step, with a space for
  each number, string and reference. `KeepsAdmissible` says which lines may come after some prose;
  it is what a fold over the line keeps.
* `readLine_eq_ok_iff` is the main statement: a line is accepted if and only if it is `Admissible`.
-/

namespace FeatureDoc

/-! ## Double braces -/

/-- Neither sort of brace. -/
def IsPlain (c : Char) : Prop := c ≠ '{' ∧ c ≠ '}'

instance : DecidablePred IsPlain := fun c => inferInstanceAs (Decidable (c ≠ '{' ∧ c ≠ '}'))

/-- Two characters that are not a pair of equal braces. -/
def Apart (a b : Char) : Prop := ¬ (a = b ∧ (a = '{' ∨ a = '}'))

theorem Apart.of_left {a b : Char} (h : IsPlain a) : Apart a b := by
  rintro ⟨-, rfl | rfl⟩
  · exact h.1 rfl
  · exact h.2 rfl

theorem Apart.of_right {a b : Char} (h : IsPlain b) : Apart a b := by
  rintro ⟨rfl, rfl | rfl⟩
  · exact h.1 rfl
  · exact h.2 rfl

theorem hasDelimiter_eq_false_iff {cs : List Char} :
    hasDelimiter cs = false ↔ cs.IsChain Apart := by
  fun_induction hasDelimiter cs with
  | case1 a b cs ih =>
    rw [List.isChain_cons_cons, ← ih, Bool.or_eq_false_iff]
    apply and_congr_left
    intro _
    simp only [Apart, Bool.or_eq_false_iff, Bool.and_eq_false_iff, beq_eq_false_iff_ne]
    constructor
    · rintro ⟨h₁, h₂⟩ ⟨rfl, rfl | rfl⟩
      · simp at h₁
      · simp at h₂
    · intro h
      grind
  | case2 cs h =>
    rcases cs with _ | ⟨a, _ | ⟨b, cs⟩⟩
    · simp
    · simp
    · exact absurd rfl (h a b cs)

/-- Two equal braces stand in a row somewhere in a text. -/
def DoubleBraces (cs : List Char) : Prop := ['{', '{'] <:+: cs ∨ ['}', '}'] <:+: cs

theorem hasDelimiter_iff {cs : List Char} : hasDelimiter cs = true ↔ DoubleBraces cs := by
  unfold DoubleBraces
  fun_induction hasDelimiter cs with
  | case1 a b cs ih =>
    have hcons : ∀ pair : List Char,
        pair <:+: a :: b :: cs ↔ pair <+: a :: b :: cs ∨ pair <:+: b :: cs :=
      fun _ => List.infix_cons_iff
    simp only [Bool.or_eq_true, Bool.and_eq_true, beq_iff_eq, ih, hcons, List.cons_prefix_cons,
      List.nil_prefix, and_true]
    grind
  | case2 cs h =>
    rcases cs with _ | ⟨a, _ | ⟨b, cs⟩⟩
    · simp
    · simp [List.infix_cons_iff]
    · exact absurd rfl (h a b cs)

/-- A word never starts or ends with a brace. -/
theorem IsPlain.of_isWordChar {c : Char} (h : Text.isWordChar c = true) : IsPlain c := by
  constructor
  · rintro rfl
    exact absurd h (by decide)
  · rintro rfl
    exact absurd h (by decide)

theorem IsPlain.of_isTagChar {c : Char} (h : Text.isTagChar c = true) : IsPlain c := by
  constructor
  · rintro rfl
    exact absurd h (by decide)
  · rintro rfl
    exact absurd h (by decide)

/-- Characters none of which is a brace. -/
theorem isChain_apart_of_forall {cs : List Char} (h : ∀ c ∈ cs, IsPlain c) :
    cs.IsChain Apart := by
  induction cs with
  | nil => exact List.isChain_nil
  | cons c cs ih =>
    exact (ih fun d hd => h d (List.mem_cons_of_mem c hd)).cons
      fun _ _ => Apart.of_left (h c List.mem_cons_self)

/-! ## Adding a token -/

/-- The placeholder that a number or a string leaves in the text of a step, and the datum. -/
def Token.datum? (t : Token) : Option (Placeholder × String) :=
  match t.kind with
  | .number => some (.number, t.literal)
  | .string | .docString => some (.string, t.literal)
  | _ => none

/-- Kinds whose literal is joined to the text of a step as prose. -/
def Kind.isProse : Kind → Bool
  | .number | .string | .docString | .exampleValue | .comment | .tag => false
  | _ => true

theorem Token.datum?_eq_none {t : Token}
    (h : t.kind = .exampleValue ∨ t.kind = .comment ∨ t.kind = .tag ∨ t.kind.isProse = true) :
    t.datum? = none := by
  unfold Token.datum?
  rcases h with h | h | h | h
  · rw [h]
  · rw [h]
  · rw [h]
  · cases hk : t.kind <;> simp_all [Kind.isProse]

/-- The placeholder that a token leaves in the text of a step, and what it stands for. -/
def Token.mark? (t : Token) : Option (Placeholder × String) :=
  if t.kind = .exampleValue then some (.reference t.literal.toList, t.literal) else t.datum?

theorem Token.mark?_eq_none_iff {t : Token} :
    t.mark? = none ↔ t.kind = .comment ∨ t.kind = .tag ∨ t.kind.isProse = true := by
  unfold mark? datum?
  cases t.kind <;> simp [Kind.isProse]

/-- A data placeholder, which is no reference. -/
def Placeholder.isData : Placeholder → Bool
  | .number | .string => true
  | .reference _ => false

theorem Placeholder.exists_eq_reference {p : Placeholder} (h : p.isData ≠ true) :
    ∃ name, p = .reference name := by
  cases p with
  | number => exact absurd rfl h
  | string => exact absurd rfl h
  | reference name => exact ⟨name, rfl⟩

namespace StepText

/-- **What adding a token does**, one case for each sort of token. -/
theorem add_cases {s s' : StepText} {t next : Token} (h : s.add t next = .ok s') :
    (∃ p, t.datum? = some (p, t.literal) ∧ p.isData = true ∧
        s' = (s.putMark p next).putDatum t.literal) ∨
      (t.kind = .exampleValue ∧ hasDelimiter t.literal.toList = false ∧
        s' = s.putMark (.reference t.literal.toList) next) ∨
      (t.kind = .comment ∧ s' = s) ∨
      (t.kind = .tag ∧ s' = s.putTag t.literal.toList) ∨
      (t.kind.isProse = true ∧ s.formsDelimiter t.literal.toList = false ∧
        s' = { s with text := Text.joinWord s.text t.literal.toList }) := by
  unfold add at h
  dsimp only at h
  split at h
  · next hk =>
    exact Or.inl ⟨.number, by simp [Token.datum?, hk], rfl, (Except.ok.inj h).symm⟩
  · next hk =>
    exact Or.inl ⟨.string, by simp [Token.datum?, hk], rfl, (Except.ok.inj h).symm⟩
  · next hk =>
    exact Or.inl ⟨.string, by simp [Token.datum?, hk], rfl, (Except.ok.inj h).symm⟩
  · next hk =>
    split at h
    · cases h
    · next hd => exact Or.inr (Or.inl ⟨hk, by simpa using hd, (Except.ok.inj h).symm⟩)
  · next hk => exact Or.inr (Or.inr (Or.inl ⟨hk, (Except.ok.inj h).symm⟩))
  · next hk => exact Or.inr (Or.inr (Or.inr (Or.inl ⟨hk, (Except.ok.inj h).symm⟩)))
  · have hprose : t.kind.isProse = true := by cases hk : t.kind <;> simp_all [Kind.isProse]
    split at h
    · cases h
    · next hd =>
      exact Or.inr (Or.inr (Or.inr (Or.inr ⟨hprose, by simpa using hd, (Except.ok.inj h).symm⟩)))

/-- The only reason to refuse a token is double braces. -/
theorem error_of_add {s : StepText} {t next : Token} {e : ParseError}
    (h : s.add t next = .error e) : e = .reservedDelimiter t.line := by
  unfold add at h
  dsimp only at h
  split at h
  · cases h
  · cases h
  · cases h
  · split at h
    · exact (Except.error.inj h).symm
    · cases h
  · cases h
  · cases h
  · split at h
    · exact (Except.error.inj h).symm
    · cases h

theorem add_of_isProse {t : Token} (h : t.kind.isProse = true) (s : StepText) (next : Token) :
    s.add t next = if s.formsDelimiter t.literal.toList then .error (.reservedDelimiter t.line)
      else .ok { s with text := Text.joinWord s.text t.literal.toList } := by
  unfold add
  cases hk : t.kind <;> simp_all [Kind.isProse]

end StepText

/-! ## The prose of a line -/

/-- Append a token of a step line to its prose. -/
def addProse (text : List Char) (t : Token) : List Char :=
  match t.kind with
  | .number | .string | .docString | .exampleValue => text ++ [' ']
  | .comment => text
  | .tag =>
    text ++ (if text.isEmpty || text.getLast? == some ' ' then [] else [' '])
      ++ '@' :: t.literal.toList
  | _ => Text.joinWord text t.literal.toList

/-- The prose of a step line: its tokens joined, with a space for each number, string and
reference. -/
def prose (line : List Token) : List Char := line.foldl addProse []

/-- A line that a step may have: neither the names of its references nor its prose hold double
braces. -/
structure Admissible (line : List Token) : Prop where
  /-- No name in a reference holds double braces. -/
  reference : ∀ t ∈ line, t.kind = .exampleValue → hasDelimiter t.literal.toList = false
  /-- The prose holds no double braces. -/
  prose : hasDelimiter (prose line) = false

/-- A line that may come after some prose: neither the names of its references nor the prose that
it makes hold double braces. -/
def KeepsAdmissible (text : List Char) (line : List Token) : Prop :=
  (∀ t ∈ line, t.kind = .exampleValue → hasDelimiter t.literal.toList = false) ∧
    (line.foldl addProse text).IsChain Apart

theorem keepsAdmissible_nil {text : List Char} : KeepsAdmissible text [] ↔ text.IsChain Apart := by
  simp [KeepsAdmissible]

theorem keepsAdmissible_cons {text : List Char} {t : Token} {line : List Token} :
    KeepsAdmissible text (t :: line) ↔
      (t.kind = .exampleValue → hasDelimiter t.literal.toList = false) ∧
        KeepsAdmissible (addProse text t) line := by
  unfold KeepsAdmissible
  rw [List.forall_mem_cons, List.foldl_cons, and_assoc]

theorem admissible_iff {line : List Token} : Admissible line ↔ KeepsAdmissible [] line := by
  constructor
  · exact fun ⟨h, h'⟩ => ⟨h, hasDelimiter_eq_false_iff.1 h'⟩
  · exact fun ⟨h, h'⟩ => ⟨h, hasDelimiter_eq_false_iff.2 h'⟩

theorem addProse_of_datum? {t : Token} {d : Placeholder × String} (h : t.datum? = some d)
    (text : List Char) : addProse text t = text ++ [' '] := by
  unfold Token.datum? at h
  unfold addProse
  cases hk : t.kind <;> simp_all

theorem addProse_of_isProse {t : Token} (h : t.kind.isProse = true) (text : List Char) :
    addProse text t = Text.joinWord text t.literal.toList := by
  unfold addProse
  cases hk : t.kind <;> simp_all [Kind.isProse]

theorem joinWord_eq_append (text piece : List Char) :
    ∃ gap, Text.joinWord text piece = text ++ gap ++ piece ∧ (gap = [] ∨
      gap = [' '] ∧ text.getLast?.any Text.isWordChar = true ∧
        piece.head?.any Text.isWordChar = true) := by
  unfold Text.joinWord
  split
  · next h =>
    rw [Bool.and_eq_true] at h
    exact ⟨[' '], by simp, Or.inr ⟨rfl, h⟩⟩
  · exact ⟨[], by simp, Or.inl rfl⟩

theorem prefix_addProse (text : List Char) (t : Token) : text <+: addProse text t := by
  unfold addProse
  split
  · exact List.prefix_append _ _
  · exact List.prefix_append _ _
  · exact List.prefix_append _ _
  · exact List.prefix_append _ _
  · exact List.prefix_rfl
  · rw [List.append_assoc]
    exact List.prefix_append _ _
  · obtain ⟨gap, h, -⟩ := joinWord_eq_append text t.literal.toList
    rw [h, List.append_assoc]
    exact List.prefix_append _ _

theorem prefix_foldl_addProse (line : List Token) (text : List Char) :
    text <+: line.foldl addProse text := by
  induction line generalizing text with
  | nil => exact List.prefix_rfl
  | cons t line ih => exact (prefix_addProse text t).trans (ih _)

/-- What may come after some prose may do so in part. -/
theorem KeepsAdmissible.of_isPrefix {text : List Char} {front line : List Token}
    (h : KeepsAdmissible text line) (hfront : front <+: line) : KeepsAdmissible text front := by
  obtain ⟨back, rfl⟩ := hfront
  obtain ⟨hrefs, hprose⟩ := h
  rw [List.foldl_append] at hprose
  exact ⟨fun t ht => hrefs t (List.mem_append_left back ht),
    hprose.infix (prefix_foldl_addProse back _).isInfix⟩

/-- The check on the last character is the check on the whole text. -/
theorem isChain_joinWord_iff {text : List Char} (htext : text.IsChain Apart) (piece : List Char) :
    (Text.joinWord text piece).IsChain Apart ↔
      hasDelimiter (text.getLast?.toList ++ piece) = false := by
  have hlast : text.getLast?.toList.IsChain Apart := by cases text.getLast? <;> simp
  have hend : text.getLast?.toList.getLast? = text.getLast? := by cases text.getLast? <;> rfl
  rw [hasDelimiter_eq_false_iff]
  obtain ⟨gap, h, rfl | ⟨rfl, -, hr⟩⟩ := joinWord_eq_append text piece
  · rw [h, List.append_nil, List.isChain_append, List.isChain_append]
    simp only [htext, hlast, hend, true_and]
  · have hspace : ∀ c, Apart ' ' c ∧ Apart c ' ' := fun c =>
      ⟨Apart.of_left (by decide), Apart.of_right (by decide)⟩
    -- two words meet, so no brace stands on either side of the space
    have hword : ∀ x ∈ text.getLast?, ∀ y ∈ piece.head?, Apart x y := by
      intro x hx y hy
      simp only [Option.any_eq_true] at hr
      obtain ⟨z, hz, hw⟩ := hr
      obtain rfl : z = y := Option.some.inj (hz.symm.trans hy)
      exact Apart.of_right (IsPlain.of_isWordChar hw)
    rw [h, List.isChain_append, List.isChain_append, List.isChain_append]
    simp only [htext, hlast, hend, List.isChain_singleton, true_and]
    constructor
    · rintro ⟨-, hp, -⟩
      exact ⟨hp, hword⟩
    · rintro ⟨hp, -⟩
      refine ⟨fun _ _ y hy => ?_, hp, fun x hx y _ => ?_⟩
      · simp only [List.head?_cons, Option.mem_def, Option.some.injEq] at hy
        exact hy ▸ (hspace _).2
      · simp only [List.getLast?_append, List.getLast?_singleton, Option.some_or,
          Option.mem_def, Option.some.injEq] at hx
        exact hx ▸ (hspace y).1

/-! ## What the fold accepts -/

/-- The text of a step goes along with its prose: both or neither are empty, and they end alike
unless `next` is a datum, which brings a space of its own. -/
structure Echoes (text prose : List Char) (next : Token) : Prop where
  /-- Both or neither are empty. -/
  eq_nil : text = [] ↔ prose = []
  /-- They end alike. -/
  getLast? : next.kind.isData = false → text.getLast? = prose.getLast?

theorem Echoes.isEmpty {text prose : List Char} {next : Token} (h : Echoes text prose next) :
    text.isEmpty = prose.isEmpty := by
  rw [Bool.eq_iff_iff, List.isEmpty_iff, List.isEmpty_iff]
  exact h.eq_nil

theorem Echoes.append_left {text prose : List Char} {t next : Token} (h : Echoes text prose t)
    (ht : t.kind.isData = false) (piece : List Char) :
    Echoes (text ++ piece) (prose ++ piece) next := by
  refine ⟨?_, fun _ => ?_⟩
  · rw [List.append_eq_nil_iff, List.append_eq_nil_iff, h.eq_nil]
  · rw [List.getLast?_append, List.getLast?_append, h.getLast? ht]

theorem Kind.isData_eq_false {k : Kind} (h : k = .comment ∨ k = .tag ∨ k.isProse = true) :
    k.isData = false := by
  rcases h with rfl | rfl | h
  · rfl
  · rfl
  · cases k <;> simp_all [Kind.isProse, Kind.isData]

namespace StepText

theorem echoes_putMark (s : StepText) (p : Placeholder) (prose : List Char) (next : Token) :
    Echoes (s.putMark p next).text (prose ++ [' ']) next := by
  refine ⟨by simp [putMark], fun hnext => ?_⟩
  simp only [putMark, hnext, Bool.false_eq_true, if_false]
  rw [List.getLast?_concat, List.getLast?_concat]

/-- Adding a token keeps text and prose together. -/
theorem echoes_add {s s' : StepText} {prose : List Char} {t next : Token}
    (h : Echoes s.text prose t) (hs : s.add t next = .ok s') :
    Echoes s'.text (addProse prose t) next := by
  obtain ⟨p, hp, -, rfl⟩ | ⟨hk, -, rfl⟩ | ⟨hk, rfl⟩ | ⟨hk, rfl⟩ | ⟨hk, -, rfl⟩ := add_cases hs
  · rw [addProse_of_datum? hp]
    exact s.echoes_putMark p prose next
  · simp only [addProse, hk]
    exact s.echoes_putMark _ prose next
  · simp only [addProse, hk]
    exact ⟨h.eq_nil, fun _ => h.getLast? (Kind.isData_eq_false (Or.inl hk))⟩
  · have hdata := Kind.isData_eq_false (Or.inr (Or.inl hk))
    simp only [addProse, hk, putTag, h.isEmpty, h.getLast? hdata, List.append_assoc]
    exact h.append_left hdata _
  · have hdata := Kind.isData_eq_false (Or.inr (Or.inr hk))
    rw [addProse_of_isProse hk]
    unfold Text.joinWord
    rw [h.getLast? hdata]
    split
    · exact h.append_left hdata _
    · exact h.append_left hdata _

/-- What is added leaves the prose free of double braces. -/
theorem isChain_of_add {s s' : StepText} {prose : List Char} {t next : Token}
    (h : Echoes s.text prose t) (hprose : prose.IsChain Apart) (ht : t.Spelled)
    (hs : s.add t next = .ok s') :
    (t.kind = .exampleValue → hasDelimiter t.literal.toList = false) ∧
      (addProse prose t).IsChain Apart := by
  have hspace : (prose ++ [' ']).IsChain Apart :=
    hprose.append (List.isChain_singleton _) fun _ _ y hy => by
      obtain rfl : ' ' = y := by simpa using hy
      exact Apart.of_right (by decide)
  obtain ⟨p, hp, -, -⟩ | ⟨hk, hd, -⟩ | ⟨hk, -⟩ | ⟨hk, -⟩ | ⟨hk, hd, -⟩ := add_cases hs
  · refine ⟨fun hk => ?_, by rw [addProse_of_datum? hp]; exact hspace⟩
    rw [Token.datum?_eq_none (Or.inl hk)] at hp
    cases hp
  · exact ⟨fun _ => hd, by simpa only [addProse, hk] using hspace⟩
  · refine ⟨fun hk' => absurd (hk.symm.trans hk') (by decide), ?_⟩
    simpa only [addProse, hk] using hprose
  · refine ⟨fun hk' => absurd (hk.symm.trans hk') (by decide), ?_⟩
    have hname : ('@' :: t.literal.toList).IsChain Apart :=
      isChain_apart_of_forall fun c hc => by
        rcases List.mem_cons.1 hc with rfl | hc
        · decide
        · exact IsPlain.of_isTagChar (ht.tag hk c hc)
    simp only [addProse, hk]
    refine List.IsChain.append ?_ hname fun _ _ y hy => ?_
    · split
      · rwa [List.append_nil]
      · exact hspace
    · obtain rfl : '@' = y := by simpa using hy
      exact Apart.of_right (by decide)
  · refine ⟨fun hk' => ?_, ?_⟩
    · rw [hk'] at hk
      cases hk
    · rw [addProse_of_isProse hk, isChain_joinWord_iff hprose,
        ← h.getLast? (Kind.isData_eq_false (Or.inr (Or.inr hk)))]
      exact hd

/-- A token is added whenever the prose stays free of double braces. -/
theorem add_of_isChain {s : StepText} {prose : List Char} {t : Token} (next : Token)
    (h : Echoes s.text prose t) (hprose : prose.IsChain Apart)
    (href : t.kind = .exampleValue → hasDelimiter t.literal.toList = false)
    (hadd : (addProse prose t).IsChain Apart) : ∃ s', s.add t next = .ok s' := by
  by_cases hk : t.kind.isProse = true
  · rw [addProse_of_isProse hk, isChain_joinWord_iff hprose,
      ← h.getLast? (Kind.isData_eq_false (Or.inr (Or.inr hk)))] at hadd
    exact ⟨_, (add_of_isProse hk s next).trans (if_neg (by rw [formsDelimiter, hadd]; simp))⟩
  · unfold add
    cases hkind : t.kind <;> simp_all [Kind.isProse]

theorem readLine_cons {t : Token} (h : t.kind.endsLine = false) (s : StepText) (ts : List Token) :
    s.readLine (t :: ts) = match s.add t (peek ts) with
      | .ok s' => s'.readLine ts
      | .error e => .error ⟨e, ts⟩ := by
  rw [readLine, h]
  rfl

theorem readLine_of_endsLine (s : StepText) (ts : List Token) (h : (peek ts).kind.endsLine = true) :
    s.readLine ts = .ok (s, ts) := by
  rcases ts with _ | ⟨t, ts⟩
  · rfl
  · exact if_pos h

/-- A line that is accepted is read up to its end. -/
theorem rest_of_readLine {s s' : StepText} {ts rest : List Token}
    (h : s.readLine ts = .ok (s', rest)) : rest = dropLine ts := by
  induction ts generalizing s with
  | nil =>
    cases h
    rfl
  | cons t ts ih =>
    by_cases ht : t.kind.endsLine = true
    · rw [readLine_of_endsLine s (t :: ts) ht] at h
      cases h
      exact (dropLine_cons_of_endsLine ht ts).symm
    · rw [Bool.not_eq_true] at ht
      rw [readLine_cons ht] at h
      rw [dropLine_cons ht]
      split at h
      · exact ih h
      · cases h

/-- A line that is accepted is admissible. -/
theorem keepsAdmissible_of_readLine {s s' : StepText} {text : List Char} {ts rest : List Token}
    (h : Echoes s.text text (peek ts)) (htext : text.IsChain Apart)
    (hspelled : ∀ t ∈ takeLine ts, t.Spelled) (hok : s.readLine ts = .ok (s', rest)) :
    KeepsAdmissible text (takeLine ts) := by
  induction ts generalizing s text with
  | nil => exact keepsAdmissible_nil.2 htext
  | cons t ts ih =>
    by_cases ht : t.kind.endsLine = true
    · rw [takeLine_cons_of_endsLine ht]
      exact keepsAdmissible_nil.2 htext
    · rw [Bool.not_eq_true] at ht
      rw [takeLine_cons ht] at hspelled ⊢
      rw [readLine_cons ht] at hok
      split at hok
      · next s₁ hadd =>
        obtain ⟨href, hchain⟩ := isChain_of_add h htext (hspelled t List.mem_cons_self) hadd
        exact keepsAdmissible_cons.2 ⟨href, ih (echoes_add h hadd) hchain
          (fun u hu => hspelled u (List.mem_cons_of_mem t hu)) hok⟩
      · cases hok

/-- An admissible line is accepted. -/
theorem readLine_of_keepsAdmissible {s : StepText} {text : List Char} {ts : List Token}
    (h : Echoes s.text text (peek ts)) (htext : text.IsChain Apart)
    (hline : KeepsAdmissible text (takeLine ts)) : ∃ s', s.readLine ts = .ok (s', dropLine ts) := by
  induction ts generalizing s text with
  | nil => exact ⟨s, rfl⟩
  | cons t ts ih =>
    by_cases ht : t.kind.endsLine = true
    · rw [dropLine_cons_of_endsLine ht]
      exact ⟨s, readLine_of_endsLine s (t :: ts) ht⟩
    · rw [Bool.not_eq_true] at ht
      rw [takeLine_cons ht, keepsAdmissible_cons] at hline
      have hchain : (addProse text t).IsChain Apart :=
        keepsAdmissible_nil.1 (hline.2.of_isPrefix List.nil_prefix)
      obtain ⟨s₁, hadd⟩ : ∃ s₁, s.add t (peek ts) = .ok s₁ :=
        add_of_isChain (peek ts) h htext hline.1 hchain
      rw [dropLine_cons ht, readLine_cons ht, hadd]
      exact ih (echoes_add h hadd) hchain hline.2

theorem echoes_empty (next : Token) : Echoes empty.text [] next := ⟨Iff.rfl, fun _ => rfl⟩

/-- **A step line is accepted if and only if it is admissible.** -/
theorem readLine_eq_ok_iff {ts : List Token} (hspelled : ∀ t ∈ takeLine ts, t.Spelled) :
    (∃ s, empty.readLine ts = .ok (s, dropLine ts)) ↔ Admissible (takeLine ts) := by
  rw [admissible_iff]
  constructor
  · rintro ⟨s, h⟩
    exact keepsAdmissible_of_readLine (echoes_empty _) List.isChain_nil hspelled h
  · exact readLine_of_keepsAdmissible (echoes_empty _) List.isChain_nil

/-- Reading a line depends on the line and on the token that ends it. -/
theorem readLine_append {l m : List Token} {t : Token} {s s' : StepText}
    (hl : ∀ u ∈ l, u.kind.endsLine = false) (ht : t.kind.endsLine = true)
    (h : s.readLine (l ++ t :: m) = .ok (s', t :: m)) (m' : List Token) :
    s.readLine (l ++ t :: m') = .ok (s', t :: m') := by
  induction l generalizing s with
  | nil =>
    rw [List.nil_append, readLine_of_endsLine s (t :: m) ht] at h
    cases h
    exact readLine_of_endsLine s' (t :: m') ht
  | cons u l ih =>
    rw [List.forall_mem_cons] at hl
    have hnext : peek (l ++ t :: m') = peek (l ++ t :: m) := by cases l <;> rfl
    rw [List.cons_append, readLine_cons hl.1] at h ⊢
    rw [hnext]
    split at h
    · next s₁ hadd => exact ih hl.2 h
    · cases h

/-- The only error in a step line is that of double braces. -/
theorem error_of_readLine {s : StepText} {ts : List Token} {failure : Failure}
    (h : s.readLine ts = .error failure) : ∃ line, failure.error = .reservedDelimiter line := by
  induction ts generalizing s with
  | nil => cases h
  | cons t ts ih =>
    by_cases ht : t.kind.endsLine = true
    · rw [readLine_of_endsLine s (t :: ts) ht] at h
      cases h
    · rw [Bool.not_eq_true] at ht
      rw [readLine_cons ht] at h
      split at h
      · exact ih h
      · next e hadd =>
        cases h
        exact ⟨t.line, error_of_add hadd⟩

end StepText

end FeatureDoc
