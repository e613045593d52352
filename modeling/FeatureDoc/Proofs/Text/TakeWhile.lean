import Mathlib.Data.List.TakeWhile

/-!
# Where a test stops

Texts and tokens are read as far as a test holds. What is taken ends in front of the first element
that fails the test, so it does not change with what comes after that element.

* `head?_dropWhile_eq_false` says that what is left starts with such an element, if with any.
* `takeWhile_append_stop` says that a list is cut where such an element comes after elements that
  pass the test, `takeWhile_ne_append` that it is cut at a delimiter; `takeWhile_insert` is about
  elements that are inserted there.
* `takeWhile_append_of_exists` and `dropWhile_append_of_exists` are about a list that holds such an
  element, whatever comes after it.
-/

namespace FeatureDoc

variable {α : Type} {p : α → Bool} {l m : List α}

/-! ## What comes after -/

theorem takeWhile_eq_nil_of_head? (h : ∀ x ∈ m.head?, p x = false) : m.takeWhile p = [] := by
  rcases m with _ | ⟨x, m⟩
  · rfl
  · exact List.takeWhile_cons_of_neg (by simp [h x rfl])

theorem dropWhile_eq_self_of_head? (h : ∀ x ∈ m.head?, p x = false) : m.dropWhile p = m := by
  rcases m with _ | ⟨x, m⟩
  · rfl
  · exact List.dropWhile_cons_of_neg (by simp [h x rfl])

/-- What is left starts with an element that fails the test. -/
theorem head?_dropWhile_eq_false (p : α → Bool) (l : List α) :
    ∀ x ∈ (l.dropWhile p).head?, p x = false := by
  intro x hx
  have hstop := List.head?_dropWhile_not p l
  rw [Option.mem_def.1 hx] at hstop
  simpa using hstop

theorem takeWhile_append_of_head? (h : ∀ x ∈ m.head?, p x = false) :
    (l ++ m).takeWhile p = l.takeWhile p := by
  rw [List.takeWhile_append, takeWhile_eq_nil_of_head? h, List.append_nil]
  split
  · next hlen => exact ((List.takeWhile_sublist p).eq_of_length hlen).symm
  · rfl

/-- A list is cut where the test stops. -/
theorem takeWhile_append_stop (hl : ∀ x ∈ l, p x = true) (hm : ∀ x ∈ m.head?, p x = false) :
    (l ++ m).takeWhile p = l ∧ (l ++ m).dropWhile p = m := by
  rw [List.takeWhile_append_of_pos hl, List.dropWhile_append_of_pos hl,
    takeWhile_eq_nil_of_head? hm, dropWhile_eq_self_of_head? hm, List.append_nil]
  exact ⟨rfl, rfl⟩

/-- A list is cut in front of the first occurrence of an element. -/
theorem takeWhile_ne_append [BEq α] [LawfulBEq α] {d : α} (h : d ∉ l) (m : List α) :
    (l ++ d :: m).takeWhile (· != d) = l ∧ (l ++ d :: m).dropWhile (· != d) = d :: m :=
  takeWhile_append_stop (fun _ hx => bne_iff_ne.2 fun heq => h (heq ▸ hx)) (by simp)

/-- What is taken ends in front of an element that fails the test. -/
theorem head?_of_takeWhile_append (h : (l ++ m).takeWhile p = l) :
    ∀ x ∈ m.head?, p x = false := by
  have hm : m = (l ++ m).dropWhile p := by
    have happend := List.takeWhile_append_dropWhile (p := p) (l := l ++ m)
    rw [h] at happend
    exact (List.append_cancel_left happend).symm
  rw [hm]
  exact head?_dropWhile_eq_false p (l ++ m)

/-- What is taken goes on over an insertion as long as the test holds. -/
theorem takeWhile_insert {m' : List α} (h : (l ++ m).takeWhile p = l)
    (hm : ∀ x ∈ m'.head?, p x = false) (w : List α) :
    (l ++ (w ++ m')).takeWhile p = l ++ w.takeWhile p := by
  have hl : ∀ x ∈ l, p x = true := fun x hx => List.mem_takeWhile_imp (h.symm ▸ hx)
  rw [List.takeWhile_append_of_pos hl, takeWhile_append_of_head? hm]

theorem takeWhile_congr_of_mem {q : α → Bool} (h : ∀ x ∈ l, p x = q x) :
    l.takeWhile p = l.takeWhile q := by
  induction l with
  | nil => rfl
  | cons x l ih =>
    rw [List.takeWhile_cons, List.takeWhile_cons, h x List.mem_cons_self,
      ih fun y hy => h y (List.mem_cons_of_mem x hy)]

/-! ## Whatever comes after -/

section Exists

variable (h : ∃ x ∈ l, p x = false)

include h

theorem length_takeWhile_lt_of_exists : (l.takeWhile p).length < l.length := by
  refine lt_of_le_of_ne (List.takeWhile_sublist p).length_le fun hlen => ?_
  obtain ⟨x, hx, hpx⟩ := h
  rw [← (List.takeWhile_sublist p).eq_of_length hlen] at hx
  rw [List.mem_takeWhile_imp hx] at hpx
  cases hpx

theorem takeWhile_append_of_exists : (l ++ m).takeWhile p = l.takeWhile p := by
  rw [List.takeWhile_append, if_neg (length_takeWhile_lt_of_exists h).ne]

theorem dropWhile_append_of_exists : (l ++ m).dropWhile p = l.dropWhile p ++ m := by
  have hne : l.dropWhile p ≠ [] := by
    obtain ⟨x, hx, hpx⟩ := h
    rw [Ne, List.dropWhile_eq_nil_iff]
    exact fun hall => by simp [hall x hx] at hpx
  rw [List.dropWhile_append, if_neg (by simpa using hne)]

end Exists

end FeatureDoc
