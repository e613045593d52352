import FeatureDoc.Proofs.Text.TakeWhile
import FeatureDoc.Text.Space
import Mathlib.Tactic.Set

/-!
# Trimming

* `Text.Trims cs body` says what trimming is: `body` is `cs` without the spaces at its ends.
  `Text.trim_eq_iff` says that this is what is computed.
* `Text.trim_append_of_isSpace` says that spaces at the end of a text do not matter.
* `Text.trim_flatMap` says that a text that is written from pieces is trimmed piece by piece, if
  each piece is either made of spaces or has none at its ends.
-/

namespace FeatureDoc.Text

/-- A run of white space, which may be empty. -/
def IsBlank (w : List Char) : Prop := ∀ c ∈ w, isSpace c = true

/-- Spaces at the end of a text are trimmed off. -/
theorem trim_append_of_isSpace {cs w : List Char} (hw : ∀ c ∈ w, isSpace c = true) :
    trim (cs ++ w) = trim cs := by
  have hback : ∀ cs, trimEnd (cs ++ w) = trimEnd cs := by
    intro cs
    have hreverse : ∀ c ∈ w.reverse, isSpace c = true := fun c hc => hw c (List.mem_reverse.1 hc)
    rw [trimEnd, List.reverse_append, List.dropWhile_append_of_pos hreverse, trimEnd]
  have hend : trimEnd w = [] := hback []
  rw [trim, trim, trimStart, trimStart, List.dropWhile_append]
  split
  · next hnil =>
    rw [List.isEmpty_iff.1 hnil, List.dropWhile_eq_nil_iff.2 hw]
  · exact hback _

/-! ## What is left -/

section Trims

variable {cs body w : List Char}

theorem trim_append_left (hw : IsBlank w) (cs : List Char) : trim (w ++ cs) = trim cs := by
  rw [trim, trimStart, List.dropWhile_append_of_pos hw, trim, trimStart]

/-- The text `body` is `cs` without the spaces at its ends. -/
structure Trims (cs body : List Char) : Prop where
  /-- Spaces are cut off, and nothing else is. -/
  padded : ∃ w w', IsBlank w ∧ IsBlank w' ∧ cs = w ++ (body ++ w')
  /-- No space is left at the front. -/
  head : ∀ c ∈ body.head?, isSpace c = false
  /-- No space is left at the back. -/
  last : ∀ c ∈ body.getLast?, isSpace c = false

theorem Trims.self (hhead : ∀ c ∈ cs.head?, isSpace c = false)
    (hlast : ∀ c ∈ cs.getLast?, isSpace c = false) : Trims cs cs :=
  ⟨⟨[], [], List.forall_mem_nil _, List.forall_mem_nil _, (List.append_nil cs).symm⟩, hhead, hlast⟩

theorem Trims.trim_eq (h : Trims cs body) : trim cs = body := by
  obtain ⟨⟨w, w', hw, hw', rfl⟩, hhead, hlast⟩ := h
  have hback : body.reverse.dropWhile isSpace = body.reverse := by
    apply dropWhile_eq_self_of_head?
    simpa using hlast
  rw [trim_append_left hw, trim_append_of_isSpace hw', trim, trimStart,
    dropWhile_eq_self_of_head? hhead, trimEnd, hback, List.reverse_reverse]

theorem trims_trim (cs : List Char) : Trims cs (trim cs) := by
  set front := cs.dropWhile isSpace with hfront
  have hback : front = trim cs ++ (front.reverse.takeWhile isSpace).reverse := by
    rw [trim, trimEnd, trimStart, ← hfront, ← List.reverse_append, List.takeWhile_append_dropWhile,
      List.reverse_reverse]
  refine ⟨⟨cs.takeWhile isSpace, (front.reverse.takeWhile isSpace).reverse,
    fun c hc => List.mem_takeWhile_imp hc, fun c hc => ?_, ?_⟩, fun c hc => ?_, ?_⟩
  · exact List.mem_takeWhile_imp (List.mem_reverse.1 hc)
  · rw [← hback, List.takeWhile_append_dropWhile]
  · -- what is left at the front is the front of the text after its spaces
    apply head?_dropWhile_eq_false isSpace cs
    rw [← hfront, hback, List.head?_append, hc]
    rfl
  · rw [trim, trimEnd, List.getLast?_reverse]
    exact head?_dropWhile_eq_false isSpace _

/-- **Trimming cuts the spaces off both ends.** -/
theorem trim_eq_iff : trim cs = body ↔ Trims cs body :=
  ⟨fun h => h ▸ trims_trim cs, Trims.trim_eq⟩

/-- A trimmed text has nothing more to cut off. -/
theorem Trims.trimmed (h : Trims cs body) : Trims body body := .self h.head h.last

theorem trim_isInfix (cs : List Char) : trim cs <:+: cs := by
  obtain ⟨w, w', -, -, heq⟩ := (trims_trim cs).padded
  exact ⟨w, w', (List.append_assoc w _ w').trans heq.symm⟩

theorem mem_of_mem_trim {c : Char} (h : c ∈ trim cs) : c ∈ cs := (trim_isInfix cs).subset h

end Trims

/-! ## Texts that are written from pieces -/

section Pieces

variable {α : Type} {p : α → Bool} {f : α → List Char}
  (hspace : ∀ a, p a = true → ∀ c ∈ f a, isSpace c = true)

include hspace

theorem dropWhile_flatMap (hhead : ∀ a, p a = false → ∃ c ∈ (f a).head?, isSpace c = false)
    (l : List α) : (l.flatMap f).dropWhile isSpace = (l.dropWhile p).flatMap f := by
  induction l with
  | nil => rfl
  | cons a l ih =>
    rw [List.flatMap_cons]
    by_cases ha : p a = true
    · rw [List.dropWhile_append_of_pos (hspace a ha), ih, List.dropWhile_cons_of_pos ha]
    · obtain ⟨c, hc, hstop⟩ := hhead a (Bool.not_eq_true _ ▸ ha)
      obtain ⟨cs, hcs⟩ := List.head?_eq_some_iff.1 hc
      rw [List.dropWhile_cons_of_neg ha, List.flatMap_cons, hcs, List.cons_append,
        List.dropWhile_cons_of_neg (by simp [hstop])]

/-- **A text that is written from pieces is trimmed piece by piece.** -/
theorem trim_flatMap (hhead : ∀ a, p a = false → ∃ c ∈ (f a).head?, isSpace c = false)
    (hlast : ∀ a, p a = false → ∃ c ∈ (f a).getLast?, isSpace c = false) (l : List α) :
    trim (l.flatMap f) = (((l.dropWhile p).reverse.dropWhile p).reverse).flatMap f := by
  have hback : ∀ l : List α, (l.flatMap fun a => (f a).reverse).dropWhile isSpace =
      (l.dropWhile p).flatMap fun a => (f a).reverse := by
    refine dropWhile_flatMap (fun a ha c hc => hspace a ha c (List.mem_reverse.1 hc)) fun a ha => ?_
    rw [List.head?_reverse]
    exact hlast a ha
  rw [trim, trimStart, trimEnd, dropWhile_flatMap hspace hhead, List.reverse_flatMap,
    Function.comp_def, hback, List.reverse_flatMap]
  simp only [Function.comp_def, List.reverse_reverse]

end Pieces

end FeatureDoc.Text
