import FeatureDoc.Outline.Substitution
import FeatureDoc.Proofs.Text.TakeWhile

/-!
# References in data and cells

Filling a text in replaces the columns that are named between angle brackets, all at once. A bracket
that opens before a reference and is not closed until there takes the reference away: the name that
is looked up then starts at the first of the two brackets.

* `Fragment` is a character or a reference to a column; `StandsAt` says where a reference stands
  among fragments.
* `InBracket before` says that a bracket is open at the end of `before`.
* `Record.Resolved` says that the fragments of a text name every column that is written outside any
  bracket, and only these.
* `Record.fill_resolves` is the main statement. `Record.fill_stray_bracket` shows a reference that
  is taken away.
-/

namespace FeatureDoc

/-! ## Fragments -/

/-- A part of a text. -/
inductive Fragment where
  /-- A character that is kept. -/
  | char (c : Char)
  /-- A column, and the value that it has. -/
  | reference (name : List Char) (value : String)
  deriving DecidableEq, Repr

namespace Fragment

/-- A fragment as it is written. -/
def written : Fragment → List Char
  | .char c => [c]
  | .reference name _ => '<' :: name ++ ['>']

/-- A fragment once it is filled in. -/
def filled : Fragment → List Char
  | .char c => [c]
  | .reference _ value => value.toList

end Fragment

variable {parts : List Fragment} {before name : List Char} {value : String}

/-- A reference stands behind the text `before`. -/
def StandsAt (parts : List Fragment) (before name : List Char) (value : String) : Prop :=
  ∃ front back, parts = front ++ .reference name value :: back ∧
    front.flatMap Fragment.written = before

theorem standsAt_cons {p : Fragment} : StandsAt (p :: parts) before name value ↔
    (p = .reference name value ∧ before = []) ∨
      ∃ before', before = p.written ++ before' ∧ StandsAt parts before' name value := by
  constructor
  · rintro ⟨_ | ⟨q, front⟩, back, heq, rfl⟩
    · exact .inl ⟨(List.cons.inj heq).1, rfl⟩
    · obtain ⟨rfl, rfl⟩ := List.cons.inj heq
      exact .inr ⟨_, rfl, front, back, rfl, rfl⟩
  · rintro (⟨rfl, rfl⟩ | ⟨_, rfl, front, back, rfl, rfl⟩)
    · exact ⟨[], parts, rfl, rfl⟩
    · exact ⟨p :: front, back, rfl, rfl⟩

theorem standsAt_char_cons {c : Char} : StandsAt (.char c :: parts) before name value ↔
    ∃ before', before = c :: before' ∧ StandsAt parts before' name value := by
  rw [standsAt_cons]
  exact or_iff_right fun h => nomatch h.1

theorem standsAt_map_char_append {block : List Char} :
    StandsAt (block.map .char ++ parts) before name value ↔
      ∃ before', before = block ++ before' ∧ StandsAt parts before' name value := by
  induction block generalizing before with
  | nil =>
    constructor
    · exact fun h => ⟨before, rfl, h⟩
    · rintro ⟨_, rfl, h⟩
      exact h
  | cons c block ih =>
    rw [List.map_cons, List.cons_append, standsAt_char_cons]
    constructor
    · rintro ⟨_, rfl, hblock⟩
      obtain ⟨before', rfl, h⟩ := ih.1 hblock
      exact ⟨before', rfl, h⟩
    · rintro ⟨before', rfl, h⟩
      exact ⟨_, rfl, ih.2 ⟨before', rfl, h⟩⟩

theorem flatMap_written_map_char (block : List Char) :
    (block.map Fragment.char).flatMap Fragment.written = block := by
  simp [List.flatMap_map, Fragment.written]

theorem flatMap_filled_map_char (block : List Char) :
    (block.map Fragment.char).flatMap Fragment.filled = block := by
  simp [List.flatMap_map, Fragment.filled]

/-! ## Open brackets -/

/-- A bracket is open at the end of a text: it is not closed, and what comes after it, which may be
the next character of a longer text, is no space. -/
def InBracket (before : List Char) : Prop :=
  ∃ front name, before = front ++ '<' :: name ∧ '>' ∉ name ∧
    ∀ c ∈ name.head?, Text.isSpace c = false

theorem not_inBracket_nil : ¬ InBracket [] := by
  rintro ⟨front, name, heq, -⟩
  simp at heq

/-- A closing bracket leaves none open. -/
theorem inBracket_append_close (front : List Char) :
    InBracket (front ++ '>' :: before) ↔ InBracket before := by
  constructor
  · rintro ⟨front', name, heq, hname, hhead⟩
    rcases List.append_eq_append_iff.1 heq with ⟨mid, rfl, hmid⟩ | ⟨mid, rfl, hmid⟩
    · cases mid with
      | nil => simp at hmid
      | cons d mid =>
        obtain ⟨-, rfl⟩ := List.cons.inj hmid
        exact ⟨mid, name, rfl, hname, hhead⟩
    · cases mid with
      | nil => simp at hmid
      | cons d mid =>
        obtain ⟨-, rfl⟩ := List.cons.inj hmid
        simp at hname
  · rintro ⟨front', name, rfl, hname, hhead⟩
    exact ⟨front ++ '>' :: front', name, by simp, hname, hhead⟩

theorem inBracket_cons {c : Char} : InBracket (c :: before) ↔
    (c = '<' ∧ '>' ∉ before ∧ ∀ d ∈ before.head?, Text.isSpace d = false) ∨ InBracket before := by
  constructor
  · rintro ⟨_ | ⟨d, front⟩, name, heq, hname, hhead⟩
    · obtain ⟨rfl, rfl⟩ := List.cons.inj heq
      exact .inl ⟨rfl, hname, hhead⟩
    · obtain ⟨rfl, rfl⟩ := List.cons.inj heq
      exact .inr ⟨front, name, rfl, hname, hhead⟩
  · rintro (⟨rfl, hname, hhead⟩ | ⟨front, name, rfl, hname, hhead⟩)
    · exact ⟨[], before, rfl, hname, hhead⟩
    · exact ⟨c :: front, name, rfl, hname, hhead⟩

/-! ## Bracketed names -/

/-- What can stand between brackets as a name. -/
def IsBracketName (name : List Char) : Prop :=
  '>' ∉ name ∧ ∃ c ∈ name.head?, Text.isSpace c = false

/-- A bracketed name at the front of a text is a name between brackets. -/
theorem bracketed?_eq_some_iff {text rest : List Char} : bracketed? text = some (name, rest) ↔
    text = '<' :: name ++ '>' :: rest ∧ IsBracketName name := by
  constructor
  · intro h
    unfold bracketed? at h
    split at h
    · next c cs =>
      split at h
      · cases h
      · next hc =>
        rw [not_or] at hc
        split at h
        · cases h
        · next d rest' hdrop =>
          cases h
          have hd : d = '>' := by
            simpa using head?_dropWhile_eq_false (· != '>') cs d (by rw [hdrop]; rfl)
          have hcs := List.takeWhile_append_dropWhile (p := (· != '>')) (l := cs)
          rw [hdrop, hd] at hcs
          refine ⟨by rw [List.cons_append, List.cons_append, hcs], ?_, c, rfl, by simpa using hc.2⟩
          rintro (_ | ⟨_, hmem⟩)
          · exact hc.1 rfl
          · simpa using List.mem_takeWhile_imp hmem
    · cases h
  · rintro ⟨rfl, hname, c, hc, hspace⟩
    obtain ⟨cs, rfl⟩ := List.head?_eq_some_iff.1 hc
    rw [List.mem_cons, not_or] at hname
    obtain ⟨htake, hdrop⟩ := takeWhile_ne_append hname.2 rest
    simp [bracketed?, Ne.symm hname.1, hspace, hdrop, htake]

/-! ## Filling in -/

namespace Record

variable {r : Record} {text : List Char}

/-- Every column can be written between brackets: its name is not empty, holds no bracket and does
not start with a space. -/
def WellNamed (r : Record) : Prop :=
  ∀ entry ∈ r.entries, '<' ∉ entry.1.toList ∧ IsBracketName entry.1.toList

theorem WellNamed.of_get? (hr : r.WellNamed) (h : r.get? (String.ofList name) = some value) :
    '<' ∉ name ∧ IsBracketName name := by
  obtain ⟨front, back, heq, -⟩ := List.lookup_eq_some_iff.1 h
  have hmem : (String.ofList name, value) ∈ r.entries := by
    rw [← List.mem_reverse, heq]
    exact List.mem_append_right front List.mem_cons_self
  simpa using hr _ hmem

/-- The fragments of a text whose columns are to be filled in. -/
structure Resolved (r : Record) (text : List Char) (parts : List Fragment) : Prop where
  /-- The fragments make up the text. -/
  written : parts.flatMap Fragment.written = text
  /-- Every reference is to a column and has its value. -/
  known : ∀ name value, .reference name value ∈ parts → r.get? (String.ofList name) = some value
  /-- A column that is written in the text is a reference, unless a bracket is open before it. -/
  standsAt_iff : ∀ before name value after, text = before ++ '<' :: name ++ '>' :: after →
    r.get? (String.ofList name) = some value →
    (StandsAt parts before name value ↔ ¬ InBracket before)

theorem Resolved.nil : r.Resolved [] [] where
  written := rfl
  known := nofun
  standsAt_iff := by
    intro before name value after heq
    simp at heq

/-- A character at which no bracketed name starts. -/
theorem Resolved.char {c : Char} (hr : r.WellNamed) (h : r.Resolved text parts)
    (hc : bracketed? (c :: text) = none) : r.Resolved (c :: text) (.char c :: parts) where
  written := congrArg (c :: ·) h.written
  known name value hmem := h.known name value (by simpa using hmem)
  standsAt_iff := by
    intro before name value after heq hvalue
    obtain ⟨hopen, hname⟩ := hr.of_get? hvalue
    rw [standsAt_char_cons]
    cases before with
    | nil =>
      rw [bracketed?_eq_some_iff.2 ⟨heq, hname⟩] at hc
      cases hc
    | cons d before =>
      obtain ⟨rfl, htext⟩ := List.cons.inj heq
      -- the bracket at the front would be open only if a name started there
      have hclosed : ¬ (c = '<' ∧ '>' ∉ before ∧ ∀ d ∈ before.head?, Text.isSpace d = false) := by
        rintro ⟨rfl, hbefore, hhead⟩
        have hbracket : bracketed? ('<' :: text) = some (before ++ '<' :: name, after) := by
          refine bracketed?_eq_some_iff.2 ⟨heq, ?_, ?_⟩
          · simp [hbefore, hname.1]
          · cases before with
            | nil => exact ⟨'<', rfl, by decide⟩
            | cons d before => exact ⟨d, rfl, hhead d rfl⟩
        rw [hbracket] at hc
        cases hc
      rw [inBracket_cons, or_iff_right hclosed,
        ← h.standsAt_iff before name value after htext hvalue]
      exact ⟨fun ⟨_, heq, h⟩ => (List.cons.inj heq).2 ▸ h, fun h => ⟨before, rfl, h⟩⟩

theorem append_close_inj {front front' back back' : List Char} (hfront : '>' ∉ front)
    (hfront' : '>' ∉ front') (h : front ++ '>' :: back = front' ++ '>' :: back') :
    front = front' ∧ back = back' := by
  induction front generalizing front' with
  | nil =>
    cases front' with
    | nil => exact ⟨rfl, (List.cons.inj h).2⟩
    | cons d front' => exact absurd (List.mem_cons.2 (.inl (List.cons.inj h).1)) hfront'
  | cons c front ih =>
    cases front' with
    | nil => exact absurd (List.mem_cons.2 (.inl (List.cons.inj h).1.symm)) hfront
    | cons d front' =>
      rw [List.mem_cons, not_or] at hfront hfront'
      obtain ⟨rfl, htail⟩ := List.cons.inj h
      obtain ⟨rfl, rfl⟩ := ih hfront.2 hfront'.2 htail
      exact ⟨rfl, rfl⟩

/-- Where a column can be written in a text that starts with a bracketed name: it is that name, it
stands within that name, or it stands behind it. -/
theorem cases_of_bracketed {inner rest after : List Char} (hinner : '>' ∉ inner)
    (hname : '>' ∉ name)
    (h : '<' :: inner ++ '>' :: rest = before ++ '<' :: name ++ '>' :: after) :
    (before = [] ∧ name = inner) ∨ (∃ front, before = '<' :: front ∧ inner = front ++ '<' :: name) ∨
      ∃ before', before = '<' :: inner ++ '>' :: before' ∧
        rest = before' ++ '<' :: name ++ '>' :: after := by
  have hinner' : '>' ∉ '<' :: inner := by simp [hinner]
  by_cases hclose : '>' ∈ before
  · obtain ⟨front, before', rfl, hfront⟩ := List.eq_append_cons_of_mem hclose
    rw [List.append_assoc, List.append_assoc, List.cons_append] at h
    obtain ⟨rfl, rfl⟩ := append_close_inj hinner' hfront h
    exact .inr (.inr ⟨before', rfl, (List.append_assoc ..).symm⟩)
  · have hbefore : '>' ∉ before ++ '<' :: name := by simp [hclose, hname]
    obtain ⟨h, -⟩ := append_close_inj hinner' hbefore h
    cases before with
    | nil => exact .inl ⟨rfl, (List.cons.inj h).2.symm⟩
    | cons d front =>
      obtain ⟨rfl, heq⟩ := List.cons.inj h
      exact .inr (.inl ⟨front, rfl, heq⟩)

/-- A column at the front. -/
theorem Resolved.reference {rest : List Char} (hr : r.WellNamed) (h : r.Resolved rest parts)
    (hvalue : r.get? (String.ofList name) = some value) :
    r.Resolved ('<' :: name ++ '>' :: rest) (.reference name value :: parts) where
  written := by
    rw [List.flatMap_cons, h.written, Fragment.written, List.append_assoc]
    rfl
  known := by
    intro name' value' hmem
    rcases List.mem_cons.1 hmem with heq | hmem
    · cases heq
      exact hvalue
    · exact h.known name' value' hmem
  standsAt_iff := by
    intro before name' value' after heq hvalue'
    obtain ⟨hopen, hname⟩ := hr.of_get? hvalue
    rw [standsAt_cons]
    rcases cases_of_bracketed hname.1 (hr.of_get? hvalue').2.1 heq with
      ⟨rfl, rfl⟩ | ⟨front, rfl, rfl⟩ | ⟨before', rfl, hrest⟩
    · obtain rfl := Option.some.inj (hvalue.symm.trans hvalue')
      exact iff_of_true (.inl ⟨rfl, rfl⟩) not_inBracket_nil
    · simp at hopen
    · rw [inBracket_append_close, ← h.standsAt_iff before' name' value' after hrest hvalue']
      simp [Fragment.written]

/-- A name between brackets that is no column. -/
theorem Resolved.unknown {rest : List Char} (hr : r.WellNamed) (h : r.Resolved rest parts)
    (hname : IsBracketName name) (hnone : r.get? (String.ofList name) = none) :
    r.Resolved ('<' :: name ++ '>' :: rest)
      (('<' :: name ++ ['>']).map .char ++ parts) where
  written := by
    rw [List.flatMap_append, flatMap_written_map_char, h.written, List.append_assoc]
    rfl
  known name' value' hmem := by
    rcases List.mem_append.1 hmem with hmem | hmem
    · obtain ⟨c, -, heq⟩ := List.mem_map.1 hmem
      cases heq
    · exact h.known name' value' hmem
  standsAt_iff := by
    intro before name' value' after heq hvalue'
    rw [standsAt_map_char_append]
    rcases cases_of_bracketed hname.1 (hr.of_get? hvalue').2.1 heq with
      ⟨rfl, rfl⟩ | ⟨front, rfl, rfl⟩ | ⟨before', rfl, hrest⟩
    · rw [hnone] at hvalue'
      cases hvalue'
    · -- the bracket at the front is open until the column
      have hfront : InBracket ('<' :: front) := by
        obtain ⟨hclose, c, hc, hspace⟩ := hname
        refine ⟨[], front, rfl, by simp_all, fun d hd => ?_⟩
        cases front with
        | nil => cases hd
        | cons e front =>
          obtain rfl := Option.some.inj hd
          obtain rfl := Option.some.inj hc
          exact hspace
      refine iff_of_false ?_ (not_not_intro hfront)
      rintro ⟨before', heq', -⟩
      have := congrArg List.length heq'
      simp at this
    · rw [inBracket_append_close, ← h.standsAt_iff before' name' value' after hrest hvalue']
      simp

theorem fillChars_resolves (hr : r.WellNamed) (text : List Char) :
    ∃ parts, r.Resolved text parts ∧ r.fillChars text = parts.flatMap Fragment.filled := by
  fun_induction fillChars r text with
  | case1 => exact ⟨[], .nil, rfl⟩
  | case2 c cs name rest h ih =>
    obtain ⟨parts, hparts, hfill⟩ := ih
    obtain ⟨htext, hname⟩ := bracketed?_eq_some_iff.1 h
    rw [htext, hfill, valueOf]
    cases hvalue : r.get? (String.ofList name) with
    | some value => exact ⟨_, hparts.reference hr hvalue, rfl⟩
    | none =>
      refine ⟨_, hparts.unknown hr hname hvalue, ?_⟩
      rw [List.flatMap_append, flatMap_filled_map_char]
  | case3 c cs h ih =>
    obtain ⟨parts, hparts, hfill⟩ := ih
    exact ⟨_, hparts.char hr h, by rw [hfill]; rfl⟩

/-- **Filling in replaces the columns that are named outside brackets, and nothing else.** -/
theorem fill_resolves (hr : r.WellNamed) (text : String) :
    ∃ parts, r.Resolved text.toList parts ∧
      r.fill text = String.ofList (parts.flatMap Fragment.filled) := by
  obtain ⟨parts, hparts, hfill⟩ := fillChars_resolves hr text.toList
  exact ⟨parts, hparts, congrArg String.ofList hfill⟩

theorem wellNamed_singleton : (⟨[("n", "7")]⟩ : Record).WellNamed :=
  List.forall_mem_singleton.2 ⟨by decide, by decide, 'n', rfl, by decide⟩

/-- A bracket before a space opens nothing, and the reference behind it is filled in. -/
theorem fill_resolves_spaced_bracket :
    (⟨[("n", "7")]⟩ : Record).WellNamed ∧ ¬ InBracket "i < 3 or ".toList ∧
      ∃ parts, (⟨[("n", "7")]⟩ : Record).Resolved "i < 3 or <n>".toList parts ∧
        StandsAt parts "i < 3 or ".toList ['n'] "7" ∧
        String.ofList (parts.flatMap Fragment.filled) = "i < 3 or 7" := by
  have hopen : ¬ InBracket "i < 3 or ".toList := by
    have hspace : Text.isSpace ' ' = true := by decide
    simp [inBracket_cons, not_inBracket_nil, hspace]
  obtain ⟨parts, hparts, hfill⟩ := fill_resolves wellNamed_singleton "i < 3 or <n>"
  exact ⟨wellNamed_singleton, hopen, parts, hparts,
    (hparts.standsAt_iff "i < 3 or ".toList ['n'] "7" [] rfl (by decide)).2 hopen,
    hfill.symm.trans (by decide +kernel)⟩

/-- A bracket before a digit opens, and takes the reference behind it away. -/
theorem fill_stray_bracket :
    (⟨[("n", "7")]⟩ : Record).WellNamed ∧ InBracket "i<3 or ".toList ∧
      (⟨[("n", "7")]⟩ : Record).fill "i<3 or <n>" = "i<3 or <n>" := by
  have hdigit : ∀ c ∈ "3 or ".toList.head?, Text.isSpace c = false := by
    rintro c ⟨⟩
    decide
  exact ⟨wellNamed_singleton, ⟨['i'], "3 or ".toList, rfl, by decide, hdigit⟩, by decide +kernel⟩

end Record

end FeatureDoc
