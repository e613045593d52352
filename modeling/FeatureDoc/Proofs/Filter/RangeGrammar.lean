import FeatureDoc.Proofs.Filter.LineRange
import Mathlib.Data.List.Induction
import Mathlib.Data.Nat.Digits.Defs

/-!
# The grammar of line ranges

A line range is one number, or two with a dash between them, the smaller one first. White space may
stand around the whole and around each number. A number is a run of digits, as many zeros in front
of it as one likes, with one plus sign before it or none, and it has to fit into 64 bits.

* `Text.Cut sep cs pieces` says that a text is cut at every separator; `Text.splitOn_eq_iff` that
  this is what is computed.
* `LineRange.Spells cs n` says that a text spells a number, `LineRange.IsRange cs first last` that
  it is a line range.
* `LineRange.read?_eq_some_iff` says that the grammar is what is accepted.
* `LineRange.parse_iff_isRange` is the main statement.
-/

namespace FeatureDoc

/-! ## Cutting -/

namespace Text

variable {sep : Char} {cs piece : List Char} {pieces : List (List Char)}

/-- A text is cut at every separator. -/
structure Cut (sep : Char) (cs : List Char) (pieces : List (List Char)) : Prop where
  /-- There is a piece. -/
  ne_nil : pieces ≠ []
  /-- No separator is left in a piece. -/
  notMem : ∀ piece ∈ pieces, sep ∉ piece
  /-- The pieces, with a separator between each two, are the text. -/
  intercalate : [sep].intercalate pieces = cs

theorem notMem_of_mem_splitOn (h : piece ∈ cs.splitOn sep) : sep ∉ piece := by
  induction cs generalizing piece with
  | nil =>
    rw [List.splitOn_nil, List.mem_singleton] at h
    simp [h]
  | cons c cs ih =>
    obtain ⟨p, ps, hps⟩ := List.exists_cons_of_ne_nil (List.splitOn_ne_nil sep cs)
    rw [hps] at ih
    rw [List.splitOn_cons_eq_if_modifyHead, hps] at h
    split at h
    · rcases List.mem_cons.1 h with rfl | h
      · exact List.not_mem_nil
      · exact ih h
    · next hc =>
      rcases List.mem_cons.1 h with rfl | h
      · exact List.not_mem_cons_of_ne_of_not_mem (fun hsep => hc (beq_iff_eq.2 hsep.symm))
          (ih List.mem_cons_self)
      · exact ih (List.mem_cons_of_mem p h)

/-- **Splitting cuts a text at every separator.** -/
theorem splitOn_eq_iff : cs.splitOn sep = pieces ↔ Cut sep cs pieces := by
  constructor
  · rintro rfl
    exact ⟨List.splitOn_ne_nil sep cs, fun _ => notMem_of_mem_splitOn, List.intercalate_splitOn sep⟩
  · intro h
    rw [← h.intercalate, List.splitOn_intercalate sep h.notMem h.ne_nil]

end Text

namespace LineRange

/-! ## Numbers and ranges -/

/-- The number that a run of digits denotes; the last digit is that of the ones. -/
def decimal (digits : List Char) : ℕ :=
  Nat.ofDigits 10 (digits.reverse.map fun c => c.toNat - '0'.toNat)

theorem ofDigitChars_eq_decimal (digits : List Char) :
    Nat.ofDigitChars 10 digits 0 = decimal digits := by
  induction digits using List.reverseRecOn with
  | nil => rfl
  | append_singleton digits c ih =>
    have hlast : decimal (digits ++ [c]) = (c.toNat - '0'.toNat) + 10 * decimal digits := by
      rw [decimal, List.reverse_concat, List.map_cons, Nat.ofDigits_cons, decimal]
    rw [Nat.ofDigitChars_append, ih, hlast, Nat.add_comm]
    rfl

/-- A text spells a number: digits with a plus sign before them or none, and white space around
them. -/
inductive Spells : List Char → ℕ → Prop where
  /-- The digits have a value of at most 64 bits. -/
  | mk {cs sign digits : List Char} (htrim : Text.Trims cs (sign ++ digits))
      (hsign : sign = [] ∨ sign = ['+']) (hne : digits ≠ [])
      (hdigits : ∀ c ∈ digits, c.isDigit = true) (hlimit : decimal digits < 2 ^ 64) :
    Spells cs (decimal digits)

/-- One piece that spells a number, or two that spell two in order. -/
inductive SpellRange : List (List Char) → ℕ → ℕ → Prop where
  /-- The range of one line. -/
  | single {piece : List Char} {n : ℕ} (h : Spells piece n) : SpellRange [piece] n n
  /-- The range between two lines. -/
  | between {low high : List Char} {n m : ℕ} (hlow : Spells low n) (hhigh : Spells high m)
      (hle : n ≤ m) : SpellRange [low, high] n m

/-- A text is a line range: without the spaces at its ends and cut at every dash, it spells one
number or two. -/
def IsRange (cs : List Char) (first last : ℕ) : Prop :=
  ∃ body pieces, Text.Trims cs body ∧ Text.Cut '-' body pieces ∧ SpellRange pieces first last

variable {cs : List Char} {n m first last : ℕ}

/-! ## What is accepted -/

/-- The digits after the sign. -/
def unsigned (text : List Char) : List Char :=
  if text.head? = some '+' then text.tail else text

theorem readBound?_eq_some : readBound? cs = some n ↔
    unsigned (Text.trim cs) ≠ [] ∧ (∀ c ∈ unsigned (Text.trim cs), c.isDigit = true) ∧
      decimal (unsigned (Text.trim cs)) < 2 ^ 64 ∧ decimal (unsigned (Text.trim cs)) = n := by
  have hlimit : limit = 2 ^ 64 := rfl
  rw [readBound?, ← unsigned.eq_def, ofDigitChars_eq_decimal, hlimit]
  simp only [Option.ite_none_right_eq_some, Bool.and_eq_true, decide_eq_true_iff,
    List.all_eq_true, Bool.not_eq_true', List.isEmpty_eq_false_iff, Option.some.injEq, and_assoc]

theorem exists_sign (text : List Char) :
    ∃ sign, (sign = [] ∨ sign = ['+']) ∧ text = sign ++ unsigned text := by
  unfold unsigned
  split
  · next hplus =>
    obtain ⟨digits, rfl⟩ := List.head?_eq_some_iff.1 hplus
    exact ⟨['+'], .inr rfl, rfl⟩
  · exact ⟨[], .inl rfl, rfl⟩

theorem unsigned_append {sign digits : List Char} (hsign : sign = [] ∨ sign = ['+'])
    (hdigits : ∀ c ∈ digits, c.isDigit = true) : unsigned (sign ++ digits) = digits := by
  rcases hsign with rfl | rfl
  · apply if_neg
    intro hplus
    exact absurd (hdigits '+' (List.mem_of_head? hplus)) (by decide)
  · rfl

/-- **A bound is a text that spells a number.** -/
theorem readBound?_eq_some_iff : readBound? cs = some n ↔ Spells cs n := by
  rw [readBound?_eq_some]
  constructor
  · rintro ⟨hne, hdigits, hlimit, rfl⟩
    obtain ⟨sign, hsign, htext⟩ := exists_sign (Text.trim cs)
    exact .mk (htext ▸ Text.trims_trim cs) hsign hne hdigits hlimit
  · rintro ⟨htrim, hsign, hne, hdigits, hlimit⟩
    rw [htrim.trim_eq, unsigned_append hsign hdigits]
    exact ⟨hne, hdigits, hlimit, rfl⟩

/-- **The grammar is what is accepted.** -/
theorem read?_eq_some_iff : read? cs = some ⟨first, last⟩ ↔ IsRange cs first last := by
  have hpieces : IsRange cs first last ↔
      SpellRange ((Text.trim cs).splitOn '-') first last := by
    constructor
    · rintro ⟨body, pieces, htrim, hcut, h⟩
      rwa [htrim.trim_eq, Text.splitOn_eq_iff.2 hcut]
    · intro h
      exact ⟨_, _, Text.trims_trim cs, Text.splitOn_eq_iff.1 rfl, h⟩
  rw [hpieces, read?]
  generalize (Text.trim cs).splitOn '-' = pieces
  constructor
  · intro h
    split at h
    · obtain ⟨n, hn, heq⟩ := Option.map_eq_some_iff.1 h
      cases heq
      exact .single (readBound?_eq_some_iff.1 hn)
    · obtain ⟨n, hn, h⟩ := Option.bind_eq_some_iff.1 h
      obtain ⟨m, hm, h⟩ := Option.bind_eq_some_iff.1 h
      split at h
      · next hle =>
        cases h
        exact .between (readBound?_eq_some_iff.1 hn) (readBound?_eq_some_iff.1 hm) hle
      · cases h
    · cases h
  · intro h
    cases h with
    | single h => simp [readBound?_eq_some_iff.2 h]
    | between hlow hhigh hle =>
      simp [readBound?_eq_some_iff.2 hlow, readBound?_eq_some_iff.2 hhigh, hle]

/-! ## The text of a range -/

theorem spells_repr (h : n < 2 ^ 64) : Spells n.repr.toList n := by
  apply readBound?_eq_some_iff.1
  rw [Nat.toList_repr]
  exact readBound?_toDigits h

theorem isRange_repr (hle : n ≤ m) (h : m < 2 ^ 64) :
    IsRange (n.repr ++ "-" ++ m.repr).toList n m := by
  have hdigits : ∀ k : ℕ, ∀ c ∈ k.repr.toList, c.isDigit = true := by
    intro k
    rw [Nat.toList_repr]
    exact fun c => Nat.isDigit_of_mem_toDigits (by decide) (by decide)
  have hspace : ∀ c ∈ (n.repr ++ "-" ++ m.repr).toList, Text.isSpace c = false := by
    intro c hc
    simp only [String.toList_append, List.mem_append] at hc
    rcases hc with (hc | hc) | hc
    · exact Text.isSpace_of_isDigit (hdigits n c hc)
    · rw [List.mem_singleton.1 hc]
      decide
    · exact Text.isSpace_of_isDigit (hdigits m c hc)
  have hdash : ∀ k : ℕ, '-' ∉ k.repr.toList := fun k hmem =>
    absurd (hdigits k '-' hmem) (by decide)
  refine ⟨_, [n.repr.toList, m.repr.toList],
    Text.Trims.self (fun c hc => hspace c (List.mem_of_head? hc))
      (fun c hc => hspace c (List.mem_of_getLast? hc)),
    ⟨List.cons_ne_nil _ _, by simpa only [List.forall_mem_cons] using ⟨hdash n, hdash m, by simp⟩,
      ?_⟩, .between (spells_repr (hle.trans_lt h)) (spells_repr h) hle⟩
  simp [List.intercalate]

theorem contains_iff {r : LineRange} {line : ℕ} :
    r.contains line = true ↔ r.first ≤ line ∧ line ≤ r.last := by
  simp [contains]

theorem parse_of_isRange {input : String} (h : IsRange input.toList first last) :
    parse input = .ok ⟨first, last⟩ := by
  rw [parse, read?_eq_some_iff.2 h]

/-- **Line ranges.** A text is accepted if and only if it follows the grammar. The range then
contains the lines between its two numbers, these included; any other text is refused as it was
given. The decimal texts of two numbers in order, with a dash between them, are such a range. -/
theorem parse_iff_isRange (input : String) :
    ((∃ r, parse input = .ok r) ↔ ∃ first last, IsRange input.toList first last) ∧
      (∀ r first last, parse input = .ok r → IsRange input.toList first last →
        ∀ line, r.contains line = true ↔ first ≤ line ∧ line ≤ last) ∧
      ((¬ ∃ first last, IsRange input.toList first last) →
        parse input = .error (.lineRange input)) ∧
      ∀ n m, n ≤ m → m < 2 ^ 64 → ∃ r, parse (n.repr ++ "-" ++ m.repr) = .ok r ∧
        ∀ line, r.contains line = true ↔ n ≤ line ∧ line ≤ m := by
  have hrefused : (¬ ∃ first last, IsRange input.toList first last) →
      parse input = .error (.lineRange input) := by
    intro h
    rw [parse]
    cases hread : read? input.toList with
    | none => rfl
    | some r => exact absurd ⟨r.first, r.last, read?_eq_some_iff.1 hread⟩ h
  refine ⟨⟨?_, ?_⟩, ?_, hrefused, ?_⟩
  · rintro ⟨r, hr⟩
    by_contra h
    rw [hrefused h] at hr
    cases hr
  · rintro ⟨first, last, h⟩
    exact ⟨_, parse_of_isRange h⟩
  · intro r first last hr h line
    rw [parse_of_isRange h] at hr
    cases hr
    exact contains_iff
  · intro n m hle hlimit
    exact ⟨_, parse_of_isRange (isRange_repr hle hlimit), fun line => contains_iff⟩

/-- White space, a sign and zeros in front, a range with a dash too many, and the largest number. -/
theorem parse_iff_isRange_signed :
    (IsRange " 2 -\t+007 ".toList 2 7 ∧ ∃ r, parse " 2 -\t+007 " = .ok r ∧ r.contains 7 = true ∧
      ¬ r.contains 8 = true) ∧
    ((¬ ∃ first last, IsRange " 2-3-4 ".toList first last) ∧
      parse " 2-3-4 " = .error (.lineRange " 2-3-4 ")) ∧
    ∃ r, parse "9-18446744073709551615" = .ok r ∧ r.contains 18446744073709551615 = true := by
  obtain ⟨haccepts, hcontains, -⟩ := parse_iff_isRange " 2 -\t+007 "
  obtain ⟨-, -, hrefused, hdecimal⟩ := parse_iff_isRange " 2-3-4 "
  refine ⟨?_, ?_, ?_⟩
  · have hrange : IsRange " 2 -\t+007 ".toList 2 7 := read?_eq_some_iff.1 (by decide +kernel)
    obtain ⟨r, hr⟩ := haccepts.2 ⟨2, 7, hrange⟩
    have hlines := hcontains r 2 7 hr hrange
    exact ⟨hrange, r, hr, (hlines 7).2 (by decide), fun h => absurd ((hlines 8).1 h) (by decide)⟩
  · have hnone : ¬ ∃ first last, IsRange " 2-3-4 ".toList first last := by
      rintro ⟨first, last, h⟩
      have hread := read?_eq_some_iff.2 h
      rw [show read? " 2-3-4 ".toList = none by decide +kernel] at hread
      cases hread
    exact ⟨hnone, hrefused hnone⟩
  · obtain ⟨r, hr, hlines⟩ := hdecimal 9 18446744073709551615 (by decide) (by decide)
    have htext : Nat.repr 9 ++ "-" ++ Nat.repr 18446744073709551615 = "9-18446744073709551615" := by
      decide +kernel
    rw [htext] at hr
    exact ⟨r, hr, (hlines _).2 (by decide)⟩

end LineRange

end FeatureDoc
