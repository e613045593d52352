import FeatureDoc.Json.Printer
import FeatureDoc.Proofs.Json.Text
import Mathlib.Tactic.SplitIfs

/-!
# Printed values are texts of them

* `Json.lexeme_printString` says that a printed string is a spelling of that string.
* `Json.isTextOf_pretty` is the main statement: a printed value is a text of that value. So it is
  read as that value, and different values are printed differently (`Json.pretty_injective`).
-/

namespace FeatureDoc.Json

/-! ## Strings -/

/-- Controls are escaped by their numbers. -/
theorem element_control {c : Char} (h : c.toNat < 32) :
    Element ['\\', 'u', '0', '0', Nat.digitChar (c.toNat / 16), Nat.digitChar (c.toNat % 16)]
      c := by
  have hunit : ∀ n < 32, codeUnit? '0' '0' (Nat.digitChar (n / 16)) (Nat.digitChar (n % 16)) =
      some n := by decide
  have hchar := Element.unit (hunit _ h) (Or.inl (by omega))
  rwa [Char.ofNat_toNat] at hchar

theorem element_escapeChar (c : Char) : Element (escapeChar c) c := by
  unfold escapeChar
  split_ifs with hquote hback hb hf hn hr ht hcontrol
  · exact .short (by rw [hquote]; rfl)
  · exact .short (by rw [hback]; rfl)
  · exact .short (by rw [hb]; rfl)
  · exact .short (by rw [hf]; rfl)
  · exact .short (by rw [hn]; rfl)
  · exact .short (by rw [hr]; rfl)
  · exact .short (by rw [ht]; rfl)
  · exact element_control hcontrol
  · exact .plain hquote hback (Nat.not_lt.1 hcontrol)

theorem body_flatMap_escapeChar (cs : List Char) : Body (cs.flatMap escapeChar) cs := by
  induction cs with
  | nil => exact .nil
  | cons c cs ih => exact .cons (element_escapeChar c) ih

/-- A printed string is a spelling of that string. -/
theorem lexeme_printString (s : String) : Lexeme (printString s) (.string s) := by
  have hstring := Lexeme.string (body_flatMap_escapeChar s.toList)
  rwa [String.ofList_toList] at hstring

/-! ## Values -/

theorem endsNumber_newline (depth : Nat) (cs : List Char) : EndsNumber (newline depth ++ cs) := by
  simp [EndsNumber, newline]

theorem endsNumber_printItems (depth : Nat) (xs : List Json) {cs : List Char} (h : EndsNumber cs) :
    EndsNumber (printItems depth xs ++ cs) := by
  cases xs with
  | nil => exact h
  | cons x xs => simp [EndsNumber, printItems]

theorem endsNumber_printMembers (depth : Nat) (ms : List (String × Json)) {cs : List Char}
    (h : EndsNumber cs) : EndsNumber (printMembers depth ms ++ cs) := by
  cases ms with
  | nil => exact h
  | cons m ms => simp [EndsNumber, printMembers]

namespace Spells

variable {cs : List Char} {ts : List Symbol}

theorem mark {c : Char} {t : Symbol} (hc : marks.lookup c = some t) (h : Spells cs ts) :
    Spells (c :: cs) (t :: ts) :=
  .symbol (.mark hc) (fun _ ht => absurd (ht ▸ hc) (lookup_marks_ne_number c _)) h

theorem spaces_append {w : List Char} (hw : ∀ c ∈ w, c ∈ spaces) (h : Spells cs ts) :
    Spells (w ++ cs) ts := by
  induction w with
  | nil => exact h
  | cons c w ih =>
    obtain ⟨hc, hw⟩ := List.forall_mem_cons.1 hw
    exact .space hc (ih hw)

theorem newline_append (depth : Nat) (h : Spells cs ts) : Spells (newline depth ++ cs) ts := by
  refine h.spaces_append fun c hc => ?_
  rcases List.mem_cons.1 hc with rfl | hc
  · decide
  · rw [(List.mem_replicate.1 hc).2]
    decide

theorem printString_append (s : String) (h : Spells cs ts) :
    Spells (printString s ++ cs) (.string s :: ts) :=
  .symbol (lexeme_printString s) nofun h

end Spells

/-- A value is printed as a text of it, at any depth and whatever follows. -/
def PrintsText (j : Json) : Prop :=
  ∀ depth cs ts, EndsNumber cs → Spells cs ts → Spells (print depth j ++ cs) (symbols j ++ ts)

theorem spells_printItems {xs : List Json} (hxs : ∀ x ∈ xs, PrintsText x) (depth : Nat)
    {cs : List Char} {ts : List Symbol} (hend : EndsNumber cs) (h : Spells cs ts) :
    Spells (printItems depth xs ++ cs) (itemSymbols xs ++ ts) := by
  induction xs with
  | nil => exact h
  | cons x xs ih =>
    obtain ⟨hx, hxs⟩ := List.forall_mem_cons.1 hxs
    simp only [printItems, itemSymbols, List.cons_append, List.append_assoc]
    exact .mark rfl (.newline_append _ (hx _ _ _ (endsNumber_printItems _ _ hend) (ih hxs)))

theorem spells_printMember {m : String × Json} (hm : PrintsText m.2) (depth : Nat)
    {cs : List Char} {ts : List Symbol} (hend : EndsNumber cs) (h : Spells cs ts) :
    Spells (printMember depth m ++ cs) (memberSymbols m ++ ts) := by
  obtain ⟨name, j⟩ := m
  simp only [printMember, memberSymbols, List.cons_append, List.append_assoc]
  exact .printString_append _ (.mark rfl (.space (by decide) (hm _ _ _ hend h)))

theorem spells_printMembers {ms : List (String × Json)} (hms : ∀ m ∈ ms, PrintsText m.2)
    (depth : Nat) {cs : List Char} {ts : List Symbol} (hend : EndsNumber cs) (h : Spells cs ts) :
    Spells (printMembers depth ms ++ cs) (membersSymbols ms ++ ts) := by
  induction ms with
  | nil => exact h
  | cons m ms ih =>
    obtain ⟨hm, hms⟩ := List.forall_mem_cons.1 hms
    simp only [printMembers, membersSymbols, List.cons_append, List.append_assoc]
    exact .mark rfl (.newline_append _
      (spells_printMember hm _ (endsNumber_printMembers _ _ hend) (ih hms)))

theorem printsText (j : Json) : PrintsText j := by
  intro depth cs ts hend h
  induction j using induct generalizing depth cs ts with
  | null => exact .symbol .null nofun h
  | number n =>
    rw [print, symbols]
    exact .symbol (.number n) (fun _ _ => hend) h
  | string s =>
    rw [print, symbols]
    exact .printString_append s h
  | array xs ih =>
    cases xs with
    | nil => exact .mark rfl (.mark rfl h)
    | cons x xs =>
      obtain ⟨hx, hxs⟩ := List.forall_mem_cons.1 ih
      simp only [print, symbols, List.cons_append, List.append_assoc, List.nil_append]
      have hclose := (Spells.mark (c := ']') (t := .closeArray) rfl h).newline_append depth
      have hitems := spells_printItems hxs (depth + 1) (endsNumber_newline _ _) hclose
      exact .mark rfl (.newline_append _
        (hx _ _ _ (endsNumber_printItems _ _ (endsNumber_newline _ _)) hitems))
  | object ms ih =>
    cases ms with
    | nil => exact .mark rfl (.mark rfl h)
    | cons m ms =>
      obtain ⟨hm, hms⟩ := List.forall_mem_cons.1 ih
      simp only [print, symbols, List.cons_append, List.append_assoc, List.nil_append]
      have hclose := (Spells.mark (c := '\x7d') (t := .closeObject) rfl h).newline_append depth
      have hmembers := spells_printMembers hms (depth + 1) (endsNumber_newline _ _) hclose
      exact .mark rfl (.newline_append _ (spells_printMember hm _
        (endsNumber_printMembers _ _ (endsNumber_newline _ _)) hmembers))

/-- **A printed value is a text of that value.** -/
theorem isTextOf_pretty (j : Json) : j.IsTextOf j.pretty := by
  have htext := printsText j 0 [] [] nofun .nil
  rw [List.append_nil, List.append_nil] at htext
  rwa [IsTextOf, pretty, String.toList_ofList]

/-- Different values are printed differently. -/
theorem pretty_injective : Function.Injective pretty := fun j j' h =>
  (isTextOf_pretty j).unique (h ▸ isTextOf_pretty j')

end FeatureDoc.Json
