/-!
# Placeholders

The text of a step holds placeholders between double braces: one for each number and each string
that was taken out of the line, and one for each reference to a column of the examples.

* `Placeholder.read?` reads a placeholder at the front of a text.
* `segments` splits a text into its placeholders and the characters between them, from left to
  right; `Segment.chars` is the text of a segment, and `flatMap_chars_segments` says that the
  segments make up the text.
-/

namespace FeatureDoc

/-- What stands for a datum or a reference in the text of a step. -/
inductive Placeholder where
  /-- A number. -/
  | number
  /-- A string. -/
  | string
  /-- A reference to a column. -/
  | reference (name : List Char)
  deriving DecidableEq, Repr

namespace Placeholder

/-- The placeholder as it is written. -/
def chars : Placeholder → List Char
  | .number => ['{', '{', 'd', '}', '}']
  | .string => ['{', '{', 's', '}', '}']
  | .reference name => '{' :: '{' :: '<' :: name ++ ['>', '}', '}']

/-- The placeholder at the front of a text, and what comes after it. The name in a reference goes
up to the first closing angle bracket. -/
def read? : List Char → Option (Placeholder × List Char)
  | '{' :: '{' :: 'd' :: '}' :: '}' :: rest => some (.number, rest)
  | '{' :: '{' :: 's' :: '}' :: '}' :: rest => some (.string, rest)
  | '{' :: '{' :: '<' :: cs =>
    match cs.dropWhile (· != '>') with
    | '>' :: '}' :: '}' :: rest => some (.reference (cs.takeWhile (· != '>')), rest)
    | _ => none
  | _ => none

theorem append_of_read? {cs rest : List Char} {p : Placeholder} (h : read? cs = some (p, rest)) :
    p.chars ++ rest = cs := by
  unfold read? at h
  split at h
  · simp only [Option.some.injEq, Prod.mk.injEq] at h
    obtain ⟨rfl, rfl⟩ := h
    rfl
  · simp only [Option.some.injEq, Prod.mk.injEq] at h
    obtain ⟨rfl, rfl⟩ := h
    rfl
  · rename_i cs
    split at h
    · rename_i rest' hdrop
      simp only [Option.some.injEq, Prod.mk.injEq] at h
      obtain ⟨rfl, rfl⟩ := h
      have := List.takeWhile_append_dropWhile (p := (· != '>')) (l := cs)
      rw [hdrop] at this
      simpa [chars] using this
    · cases h
  · cases h

theorem chars_ne_nil (p : Placeholder) : p.chars ≠ [] := by
  cases p <;> simp [chars]

theorem length_lt_of_read? {cs rest : List Char} {p : Placeholder}
    (h : read? cs = some (p, rest)) : rest.length < cs.length := by
  have := List.length_pos_iff.2 p.chars_ne_nil
  rw [← append_of_read? h, List.length_append]
  omega

end Placeholder

/-- A part of a step's text. -/
inductive Segment where
  /-- A character of prose. -/
  | char (c : Char)
  /-- A placeholder. -/
  | mark (p : Placeholder)
  deriving DecidableEq, Repr

/-- The text of a segment. -/
def Segment.chars : Segment → List Char
  | .char c => [c]
  | .mark p => p.chars

/-- The placeholders of a text, found from left to right, and the characters between them. -/
def segments : List Char → List Segment
  | [] => []
  | c :: cs =>
    match _h : Placeholder.read? (c :: cs) with
    | some (p, rest) => .mark p :: segments rest
    | none => .char c :: segments cs
termination_by cs => cs.length
decreasing_by
  · exact Placeholder.length_lt_of_read? _h
  · simp

/-- The segments of a text make up the text. -/
theorem flatMap_chars_segments (cs : List Char) : (segments cs).flatMap Segment.chars = cs := by
  fun_induction segments cs with
  | case1 => rfl
  | case2 c cs p rest h ih => simpa [Segment.chars, ih] using Placeholder.append_of_read? h
  | case3 c cs h ih => simp [Segment.chars, ih]

/-- Two equal braces in a row, which only placeholders may hold. -/
def hasDelimiter : List Char → Bool
  | a :: b :: cs => (a == '{' && b == '{') || (a == '}' && b == '}') || hasDelimiter (b :: cs)
  | _ => false

end FeatureDoc
