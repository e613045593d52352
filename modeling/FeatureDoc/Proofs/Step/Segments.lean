import FeatureDoc.Proofs.Step.Prose
import FeatureDoc.Proofs.Text.Trim

/-!
# Texts that are scanned as they were written

The placeholders of a step are found by scanning its text. This works as long as the prose around a
placeholder cannot be mistaken for a part of it.

* `Segment.Meets a b` holds of two segments in a row that keep apart: there are no double braces in
  prose, no brace next to a placeholder, and no two placeholders without prose between them.
* `WellSpaced segs` says that all segments do, and that the name in a reference ends where the
  reference does. `WellSpaced.segments_chars` is the main statement: a text that was written from
  such segments is scanned back into them.
* `outside` is the text without its placeholders, which then holds no double braces
  (`WellSpaced.hasDelimiter_outside`).
* `trimSegments` cuts spaces off the segments as `Text.trim` does off their text.
-/

namespace FeatureDoc

/-! ## Scanning what was written -/

/-- Two segments that may stand side by side. -/
def Segment.Meets : Segment → Segment → Prop
  | .char a, .char b => Apart a b
  | .char a, .mark _ => IsPlain a
  | .mark _, .char b => IsPlain b
  | .mark _, .mark _ => False

/-- Segments whose text is scanned back into them. -/
structure WellSpaced (segs : List Segment) : Prop where
  /-- Neighbours keep apart. -/
  isChain : segs.IsChain Segment.Meets
  /-- The name in a reference ends at the first closing bracket. -/
  name : ∀ {name}, Segment.mark (.reference name) ∈ segs → '>' ∉ name

theorem WellSpaced.of_isInfix {segs segs' : List Segment} (h : WellSpaced segs)
    (hs : segs' <:+: segs) : WellSpaced segs' where
  isChain := h.isChain.infix hs
  name := fun hmem => h.name (hs.subset hmem)

theorem WellSpaced.tail {a : Segment} {segs : List Segment} (h : WellSpaced (a :: segs)) :
    WellSpaced segs := h.of_isInfix (List.suffix_cons a segs).isInfix

/-- A placeholder is read off the front of a text. -/
theorem Placeholder.read?_chars_append {p : Placeholder}
    (h : ∀ {name}, p = .reference name → '>' ∉ name) (cs : List Char) :
    read? (p.chars ++ cs) = some (p, cs) := by
  cases p with
  | number => rfl
  | string => rfl
  | reference name =>
    obtain ⟨htake, hdrop⟩ := takeWhile_ne_append (h rfl) ('}' :: '}' :: cs)
    simp only [chars, List.cons_append, List.append_assoc, List.nil_append, read?, hdrop, htake]

/-- A placeholder starts with two opening braces. -/
theorem Placeholder.read?_eq_none {c : Char} {cs : List Char}
    (h : c = '{' → cs.head? ≠ some '{') : read? (c :: cs) = none := by
  unfold read?
  split
  · next heq => simp_all
  · next heq => simp_all
  · next heq => simp_all
  · rfl

/-- A character of prose opens no placeholder with the segments after it. -/
theorem read?_char_eq_none {c : Char} {segs : List Segment}
    (h : ∀ b ∈ segs.head?, Segment.Meets (.char c) b) :
    Placeholder.read? (c :: segs.flatMap Segment.chars) = none := by
  refine Placeholder.read?_eq_none ?_
  rintro rfl hhead
  rcases segs with _ | ⟨b | p, segs⟩
  · cases hhead
  · obtain rfl : b = '{' := Option.some.inj hhead
    exact h (.char '{') rfl ⟨rfl, Or.inl rfl⟩
  · exact (h (.mark p) rfl).1 rfl

/-- **A text is scanned back into the segments it was written from.** -/
theorem WellSpaced.segments_chars {segs : List Segment} (h : WellSpaced segs) :
    segments (segs.flatMap Segment.chars) = segs := by
  induction segs with
  | nil => rw [List.flatMap_nil, segments]
  | cons a segs ih =>
    rw [List.flatMap_cons]
    cases a with
    | char c =>
      have hnone := read?_char_eq_none (List.isChain_cons.1 h.isChain).1
      rw [Segment.chars, List.singleton_append, segments]
      split
      · next heq => rw [hnone] at heq; cases heq
      · rw [ih h.tail]
    | mark p =>
      have hread := Placeholder.read?_chars_append
        (fun hp => h.name (hp ▸ List.mem_cons_self)) (segs.flatMap Segment.chars)
      obtain ⟨c, cs, hcs⟩ := List.exists_cons_of_ne_nil p.chars_ne_nil
      rw [Segment.chars]
      rw [hcs, List.cons_append] at hread ⊢
      rw [segments]
      split
      · next heq =>
        rw [hread] at heq
        cases heq
        rw [ih h.tail]
      · next heq => rw [hread] at heq; cases heq

/-! ## The text without its placeholders -/

/-- The character of a segment of prose. -/
def Segment.char? : Segment → Option Char
  | .char c => some c
  | .mark _ => none

/-- The text without its placeholders. -/
def outside (segs : List Segment) : List Char := segs.filterMap Segment.char?

/-- The next character of prose keeps apart, whether or not a placeholder stands in between. -/
theorem apart_head?_outside {c d : Char} {segs : List Segment}
    (h : (Segment.char c :: segs).IsChain Segment.Meets) (hd : (outside segs).head? = some d) :
    Apart c d := by
  rcases segs with _ | ⟨b | p, segs⟩
  · cases hd
  · obtain rfl : b = d := Option.some.inj hd
    exact (List.isChain_cons_cons.1 h).1
  · exact Apart.of_left (List.isChain_cons_cons.1 h).1

theorem isChain_outside {segs : List Segment} (h : segs.IsChain Segment.Meets) :
    (outside segs).IsChain Apart := by
  induction segs with
  | nil => exact List.isChain_nil
  | cons a segs ih =>
    have hsegs := ih (List.isChain_cons.1 h).2
    cases a with
    | char c => exact hsegs.cons fun d hd => apart_head?_outside h hd
    | mark p => exact hsegs

/-- There are no double braces outside the placeholders. -/
theorem WellSpaced.hasDelimiter_outside {segs : List Segment} (h : WellSpaced segs) :
    hasDelimiter (outside segs) = false :=
  hasDelimiter_eq_false_iff.2 (isChain_outside h.isChain)

/-! ## Trimming -/

/-- A segment that trimming cuts off. -/
def Segment.isSpace : Segment → Bool
  | .char c => Text.isSpace c
  | .mark _ => false

/-- Cut the spaces off both ends. -/
def trimSegments (segs : List Segment) : List Segment :=
  ((segs.dropWhile Segment.isSpace).reverse.dropWhile Segment.isSpace).reverse

theorem Placeholder.getLast?_chars (p : Placeholder) : p.chars.getLast? = some '}' := by
  cases p with
  | number => rfl
  | string => rfl
  | reference name =>
    rw [chars, List.getLast?_append]
    rfl

theorem trim_flatMap_chars (segs : List Segment) :
    Text.trim (segs.flatMap Segment.chars) = (trimSegments segs).flatMap Segment.chars := by
  refine Text.trim_flatMap (fun a ha c hc => ?_) (fun a ha => ?_) (fun a ha => ?_) segs
  · cases a with
    | char d => exact List.mem_singleton.1 hc ▸ ha
    | mark p => cases ha
  · cases a with
    | char d => exact ⟨d, rfl, ha⟩
    | mark p => cases p <;> exact ⟨'{', rfl, by decide⟩
  · cases a with
    | char d => exact ⟨d, rfl, ha⟩
    | mark p => exact ⟨'}', p.getLast?_chars, by decide⟩

theorem trimSegments_isInfix (segs : List Segment) : trimSegments segs <:+: segs := by
  have hback : trimSegments segs <+: segs.dropWhile Segment.isSpace := by
    rw [trimSegments, ← List.reverse_suffix, List.reverse_reverse]
    exact List.dropWhile_suffix _
  exact hback.isInfix.trans (List.dropWhile_suffix _).isInfix

end FeatureDoc
