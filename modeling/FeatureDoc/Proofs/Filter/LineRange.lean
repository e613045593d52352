import FeatureDoc.Filter.LineRange
import FeatureDoc.Proofs.Text.Trim

/-!
# Line ranges and their texts

The decimal text of a number is the range of that one line.

* `Text.trim_eq_self` says that there is nothing to trim of a text without spaces.
* `LineRange.parse_repr` is the main statement; `LineRange.contains_single_iff` and
  `LineRange.containsRow_single_iff` say what such a range contains.
-/

namespace FeatureDoc

namespace Text

/-- There is nothing to cut off a text without spaces. -/
theorem trim_eq_self {cs : List Char} (h : ∀ c ∈ cs, isSpace c = false) : trim cs = cs :=
  (Trims.self (fun c hc => h c (List.mem_of_head? hc))
    fun c hc => h c (List.mem_of_getLast? hc)).trim_eq

theorem isSpace_of_isDigit {c : Char} (h : c.isDigit = true) : isSpace c = false := by
  have hc : 48 ≤ c.toNat ∧ c.toNat ≤ 57 := Char.isDigit_iff_toNat.1 h
  have hranges : ∀ r ∈ spaceRanges, ¬ (r.1 ≤ c.toNat ∧ c.toNat ≤ r.2) := by
    have hout : ∀ r ∈ spaceRanges, r.2 < 48 ∨ 57 < r.1 := by decide
    intro r hr
    have := hout r hr
    omega
  simpa [isSpace, inRanges] using hranges

end Text

namespace LineRange

/-- Digits are a bound, if their value is small enough. -/
theorem readBound?_of_isDigit {cs : List Char} (hne : cs ≠ []) (h : ∀ c ∈ cs, c.isDigit = true)
    (hlimit : Nat.ofDigitChars 10 cs 0 < limit) :
    readBound? cs = some (Nat.ofDigitChars 10 cs 0) := by
  have htrim : Text.trim cs = cs := Text.trim_eq_self fun c hc => Text.isSpace_of_isDigit (h c hc)
  have hsign : cs.head? ≠ some '+' := by
    intro hplus
    exact absurd (h '+' (List.mem_of_head? hplus)) (by decide)
  have hall : cs.all Char.isDigit = true := List.all_eq_true.2 h
  simp only [readBound?, htrim, if_neg hsign]
  simp [hne, hall, hlimit]

/-- A number is read back from its decimal text. -/
theorem readBound?_toDigits {n : Nat} (h : n < limit) :
    readBound? (Nat.toDigits 10 n) = some n := by
  have hdigits : ∀ c ∈ Nat.toDigits 10 n, c.isDigit = true := fun _ =>
    Nat.isDigit_of_mem_toDigits (by decide) (by decide)
  have hvalue : Nat.ofDigitChars 10 (Nat.toDigits 10 n) 0 = n :=
    Nat.ofDigitChars_toDigits (by decide) (by decide)
  have := readBound?_of_isDigit Nat.toDigits_ne_nil hdigits (hvalue.symm ▸ h)
  rwa [hvalue] at this

/-- **The decimal text of a number is the range of that line.** -/
theorem parse_repr {n : Nat} (h : n < limit) : parse n.repr = .ok ⟨n, n⟩ := by
  have hdigits : ∀ c ∈ Nat.toDigits 10 n, c.isDigit = true := fun _ =>
    Nat.isDigit_of_mem_toDigits (by decide) (by decide)
  have hdash : '-' ∉ Nat.toDigits 10 n := fun hmem => absurd (hdigits '-' hmem) (by decide)
  have hread : read? (Nat.toDigits 10 n) = some ⟨n, n⟩ := by
    rw [read?, Text.trim_eq_self fun c hc => Text.isSpace_of_isDigit (hdigits c hc),
      List.splitOn_eq_singleton hdash]
    simp only [readBound?_toDigits h, Option.map_some]
  rw [parse, Nat.toList_repr, hread]

theorem contains_single_iff {n line : Nat} :
    (⟨n, n⟩ : LineRange).contains line = true ↔ line = n := by
  simp only [contains, Bool.and_eq_true, decide_eq_true_eq]
  omega

theorem containsRow_single_iff {n : Nat} {row : Row} :
    (⟨n, n⟩ : LineRange).containsRow row = true ↔ row.line? = some n := by
  unfold containsRow
  cases row.line? with
  | none => simp
  | some line => simp [contains_single_iff]

end LineRange

end FeatureDoc
