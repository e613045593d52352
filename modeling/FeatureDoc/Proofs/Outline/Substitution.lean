import FeatureDoc.Outline.Expansion
import FeatureDoc.Proofs.Computation
import FeatureDoc.Proofs.Step.Alignment

/-!
# Substitution keeps placeholders and data aligned

Resolving the references in the text of a step puts prose or a new datum in place of each reference.
Neither can forge or break a placeholder, since a reference stands between plain characters.

* `Paired segs data` says that the data placeholders of a text and its data correspond one to one,
  numbers to numbers.
* `Resolves segs segs'` says that `segs'` may take the place of `segs`: it is well spaced, holds no
  reference and meets what stands before it as `segs` does.
* `Record.substitute_cons_cases` says once and for all what substitution does with a segment.
* `Record.resolves_of_substitute` is the main statement: substitution gives such segments and keeps
  the pairs. `Outline.substitute_of_expand` finds the substitution behind every step of an expanded
  outline.
-/

namespace FeatureDoc

/-! ## Filling in names -/

theorem bracketed?_eq_none {c : Char} (h : c ≠ '<') (cs : List Char) :
    bracketed? (c :: cs) = none := by
  unfold bracketed?
  split
  · next heq =>
    simp only [List.cons.injEq] at heq
    exact absurd heq.1 h
  · rfl

/-- A text without an opening bracket has no names to fill in. -/
theorem Record.fillChars_eq_self (r : Record) {cs : List Char} (h : '<' ∉ cs) :
    r.fillChars cs = cs := by
  induction cs with
  | nil => rw [fillChars]
  | cons c cs ih =>
    rw [List.mem_cons, not_or] at h
    rw [fillChars]
    split
    · next heq =>
      rw [bracketed?_eq_none (Ne.symm h.1)] at heq
      cases heq
    · rw [ih h.2]

/-- A number stays as it is. -/
theorem Record.fill_of_isNumber (r : Record) {text : String} (h : isNumber text.toList = true) :
    r.fill text = text := by
  have hdigits : '<' ∉ text.toList := by
    intro hmem
    rw [isNumber, Bool.and_eq_true, List.all_eq_true] at h
    exact absurd (h.2 '<' hmem) (by decide)
  rw [fill, fillChars_eq_self r hdigits, String.ofList_toList]

/-! ## Pairs of placeholders and data -/

/-- The data placeholders and the data correspond one to one, and a number has digits only. -/
def Paired (segs : List Segment) (data : List String) : Prop :=
  List.Forall₂ (fun p d => p = .number → isNumber d.toList = true) (dataMarks segs) data

theorem dataMarks_mark_cons {p : Placeholder} (hp : p.isData = true) (segs : List Segment) :
    dataMarks (.mark p :: segs) = p :: dataMarks segs := by
  cases p with
  | number => rfl
  | string => rfl
  | reference name => cases hp

/-! All placeholders have the same neighbours. -/

theorem Segment.Meets.mark_left {p : Placeholder} {b : Segment} (h : Segment.Meets (.mark p) b)
    (q : Placeholder) : Segment.Meets (.mark q) b := by
  cases b with
  | char c => exact h
  | mark _ => exact h

theorem Segment.Meets.mark_right {a : Segment} {p : Placeholder} (h : Segment.Meets a (.mark p))
    (q : Placeholder) : Segment.Meets a (.mark q) := by
  cases a with
  | char c => exact h
  | mark _ => exact h

/-- `segs'` may take the place of `segs`. -/
structure Resolves (segs segs' : List Segment) : Prop where
  /-- Neighbours keep apart. -/
  isChain : segs'.IsChain Segment.Meets
  /-- No reference is left. -/
  reference : ∀ name, Segment.mark (.reference name) ∉ segs'
  /-- What can stand before `segs` can stand before `segs'`. -/
  meets : ∀ a, (∀ b ∈ segs.head?, Segment.Meets a b) → ∀ b ∈ segs'.head?, Segment.Meets a b

namespace Resolves

variable {segs segs' : List Segment}

theorem wellSpaced (h : Resolves segs segs') : WellSpaced segs' :=
  ⟨h.isChain, fun hmem => absurd hmem (h.reference _)⟩

theorem nil : Resolves [] [] := ⟨List.isChain_nil, by simp, fun _ h => h⟩

/-- A segment that is no reference stays as it is. -/
theorem cons {a : Segment} (h : Resolves segs segs') (ha : ∀ name, a ≠ .mark (.reference name))
    (hmeets : ∀ b ∈ segs.head?, Segment.Meets a b) : Resolves (a :: segs) (a :: segs') where
  isChain := h.isChain.cons (h.meets a hmeets)
  reference := by
    intro name hmem
    rcases List.mem_cons.1 hmem with heq | hmem
    · exact ha name heq.symm
    · exact h.reference name hmem
  meets := fun _ hb => hb

/-- A reference becomes a datum. -/
theorem number {name : List Char} (h : Resolves segs segs')
    (hmeets : ∀ b ∈ segs.head?, Segment.Meets (.mark (.reference name)) b) :
    Resolves (.mark (.reference name) :: segs) (.mark .number :: segs') := by
  have hnumber : ∀ b ∈ segs.head?, Segment.Meets (.mark .number) b := fun b hb =>
    (hmeets b hb).mark_left _
  refine ⟨h.isChain.cons (h.meets _ hnumber), fun n hmem => ?_, fun a ha b hb => ?_⟩
  · rcases List.mem_cons.1 hmem with heq | hmem
    · cases heq
    · exact h.reference n hmem
  · obtain rfl := Option.some.inj hb
    exact (ha _ rfl).mark_right _

/-- A reference becomes prose without double braces. -/
theorem prose {name : List Char} (h : Resolves segs segs')
    (hmeets : ∀ b ∈ segs.head?, Segment.Meets (.mark (.reference name)) b) {value : List Char}
    (hvalue : value.IsChain Apart) :
    Resolves (.mark (.reference name) :: segs) (value.map .char ++ segs') := by
  -- after a reference there is a plain character, or nothing
  have hplain : ∀ c, ∀ b ∈ segs.head?, Segment.Meets (.char c) b := fun c b hb => by
    cases b with
    | char d => exact Apart.of_right (hmeets _ hb)
    | mark p => exact (hmeets _ hb).elim
  refine ⟨?_, fun n hmem => ?_, fun a ha b hb => ?_⟩
  · apply (WellSpaced.map_char hvalue).isChain.append h.isChain
    intro a ha b hb
    obtain ⟨c, -, rfl⟩ := List.mem_map.1 (List.mem_of_getLast? ha)
    exact h.meets _ (hplain c) b hb
  · rcases List.mem_append.1 hmem with hmem | hmem
    · simp at hmem
    · exact h.reference n hmem
  · cases a with
    | mark p => exact (ha _ rfl).elim
    | char c =>
      cases value with
      | nil => exact h.meets _ (hplain c) b hb
      | cons v value =>
        obtain rfl := Option.some.inj hb
        exact Apart.of_left (ha _ rfl)

end Resolves

/-! ## Substitution -/

namespace Record

/-- A value that is put into prose holds no double braces. -/
theorem isChain_of_resolve {r : Record} {columns : List String} {name : List Char} {value : String}
    (h : r.resolve columns name = .ok value) (hvalue : isNumber value.toList = false) :
    value.toList.IsChain Apart := by
  unfold resolve at h
  split at h
  · cases h
  · split at h
    · cases h
    · next hcheck =>
      cases h
      rw [hvalue] at hcheck
      exact hasDelimiter_eq_false_iff.1 (by simpa using hcheck)

theorem substitute_mark {r : Record} {columns : List String} {p : Placeholder}
    (hp : p.isData = true) {segs : List Segment} {data : List String} :
    r.substitute columns (.mark p :: segs) data = (do
      let (text, after) ← r.substitute columns segs data.tail
      return (p.chars ++ text, (data.take 1).map r.fill ++ after)) := by
  cases p with
  | number => rw [substitute]; nofun
  | string => rw [substitute]; nofun
  | reference name => cases hp

/-- **What substitution does with a segment**, one case for each sort of segment. -/
theorem substitute_cons_cases {r : Record} {columns : List String} {a : Segment}
    {segs : List Segment} {data data' : List String} {text : List Char}
    (h : r.substitute columns (a :: segs) data = .ok (text, data')) :
    (∃ c text₁, a = .char c ∧ text = c :: text₁ ∧
        r.substitute columns segs data = .ok (text₁, data')) ∨
      (∃ p text₁ data₁, a = .mark p ∧ p.isData = true ∧ text = p.chars ++ text₁ ∧
        data' = (data.take 1).map r.fill ++ data₁ ∧
        r.substitute columns segs data.tail = .ok (text₁, data₁)) ∨
      ∃ name value text₁ data₁, a = .mark (.reference name) ∧
        r.resolve columns name = .ok value ∧ r.substitute columns segs data = .ok (text₁, data₁) ∧
        (isNumber value.toList = true ∧ text = Placeholder.number.chars ++ text₁ ∧
            data' = value :: data₁ ∨
          isNumber value.toList = false ∧ text = value.toList ++ text₁ ∧ data' = data₁) := by
  cases a with
  | char c =>
    rw [substitute, bind_eq_ok_iff] at h
    obtain ⟨⟨text₁, data₁⟩, hrest, heq⟩ := h
    cases heq
    exact .inl ⟨c, text₁, rfl, rfl, hrest⟩
  | mark p =>
    by_cases hp : p.isData = true
    · rw [substitute_mark hp, bind_eq_ok_iff] at h
      obtain ⟨⟨text₁, data₁⟩, hrest, heq⟩ := h
      cases heq
      exact .inr (.inl ⟨p, text₁, data₁, rfl, hp, rfl, rfl, hrest⟩)
    · obtain ⟨name, rfl⟩ := Placeholder.exists_eq_reference hp
      rw [substitute, bind_eq_ok_iff] at h
      obtain ⟨value, hvalue, h⟩ := h
      obtain ⟨⟨text₁, data₁⟩, hrest, heq⟩ := bind_eq_ok_iff.1 h
      refine .inr (.inr ⟨name, value, text₁, data₁, rfl, hvalue, hrest, ?_⟩)
      dsimp only at heq
      split at heq
      · next hnumber =>
        cases heq
        exact .inl ⟨hnumber, rfl, rfl⟩
      · next hnumber =>
        cases heq
        exact .inr ⟨by simpa using hnumber, rfl, rfl⟩

/-- **Substitution keeps placeholders and data aligned.** -/
theorem resolves_of_substitute {r : Record} {columns : List String} {segs : List Segment}
    {data data' : List String} {text : List Char} (h : segs.IsChain Segment.Meets)
    (hpaired : Paired segs data) (hs : r.substitute columns segs data = .ok (text, data')) :
    ∃ segs', text = segs'.flatMap Segment.chars ∧ Resolves segs segs' ∧ Paired segs' data' := by
  induction segs generalizing data data' text with
  | nil =>
    obtain rfl : data = [] := List.forall₂_nil_left_iff.1 hpaired
    cases hs
    exact ⟨[], rfl, .nil, .nil⟩
  | cons a segs ih =>
    obtain ⟨hmeets, hchain⟩ := List.isChain_cons.1 h
    obtain ⟨c, text₁, rfl, rfl, hrest⟩ | ⟨p, text₁, data₁, rfl, hp, rfl, rfl, hrest⟩ |
      ⟨name, value, text₁, data₁, rfl, hvalue, hrest, hcases⟩ := substitute_cons_cases hs
    · obtain ⟨segs', rfl, hres, hpaired'⟩ := ih hchain hpaired hrest
      exact ⟨.char c :: segs', rfl, hres.cons nofun hmeets, hpaired'⟩
    · -- a data placeholder keeps its datum
      rw [Paired, dataMarks_mark_cons hp] at hpaired
      obtain ⟨d, data, hd, htail, rfl⟩ := List.forall₂_cons_left_iff.1 hpaired
      obtain ⟨segs', rfl, hres, hpaired'⟩ := ih hchain htail hrest
      refine ⟨.mark p :: segs', rfl, hres.cons ?_ hmeets, ?_⟩
      · rintro name heq
        cases heq
        cases hp
      · rw [Paired, dataMarks_mark_cons hp]
        refine List.Forall₂.cons (fun hnumber => ?_) hpaired'
        rw [r.fill_of_isNumber (hd hnumber)]
        exact hd hnumber
    · obtain ⟨segs', rfl, hres, hpaired'⟩ := ih hchain hpaired hrest
      obtain ⟨hnumber, rfl, rfl⟩ | ⟨hnumber, rfl, rfl⟩ := hcases
      · exact ⟨.mark .number :: segs', rfl, hres.number hmeets,
          List.Forall₂.cons (fun _ => hnumber) hpaired'⟩
      · have hprose := isChain_of_resolve hvalue hnumber
        refine ⟨value.toList.map .char ++ segs', ?_, hres.prose hmeets hprose, ?_⟩
        · simp [List.flatMap_append, List.flatMap_map, Segment.chars]
        · rw [Paired, dataMarks_append, dataMarks_map_char]
          exact hpaired'

end Record

/-- Every step of an expanded outline is a step of the outline with the values of a row. -/
theorem Outline.substitute_of_expand {o : Outline} {scenarios : List Scenario} {sc : Scenario}
    {step : Step} (h : o.expand = .ok scenarios) (hsc : sc ∈ scenarios) (hstep : step ∈ sc.steps) :
    ∃ columns r, ∃ s ∈ o.steps, s.substitute columns r = .ok step := by
  obtain ⟨columns, -, h⟩ := bind_eq_ok_iff.1 h
  obtain ⟨records, -, h⟩ := bind_eq_ok_iff.1 h
  obtain ⟨⟨row, r⟩, -, hinst⟩ := exists_of_mem_forall₂ (mapM_eq_ok_iff.1 h).flip hsc
  obtain ⟨steps, hsteps, heq⟩ := bind_eq_ok_iff.1 hinst
  cases heq
  obtain ⟨s, hs, hsubst⟩ := exists_of_mem_forall₂ (mapM_eq_ok_iff.1 hsteps).flip hstep
  exact ⟨columns, r, s, hs, hsubst⟩

end FeatureDoc
