import FeatureDoc.Proofs.Json.Symbols
import FeatureDoc.Proofs.Text.TakeWhile

/-!
# JSON texts

The texts of JSON values, and how a value is read from its text. White space may stand between
symbols, and a character of a string may be escaped in several ways, so a value has many texts.

* `Json.IsTextOf` says which texts a value has, from the characters of strings (`Json.Element`) over
  single symbols (`Json.Lexeme`) to sequences of symbols (`Json.Spells`).
* `Json.ofText?` reads a text. `Json.ofText?_eq_some_iff` is the main statement: it reads each text
  of a value, and no other, as that value.
-/

namespace FeatureDoc.Json

/-! ## Grammar -/

/-- The characters that a backslash and another character stand for. -/
def shortEscapes : List (Char × Char) :=
  [('"', '"'), ('\\', '\\'), ('/', '/'), ('b', '\x08'), ('f', '\x0c'), ('n', '\n'), ('r', '\r'),
    ('t', '\t')]

/-- The value of a hexadecimal digit, in capital or small letters. -/
def hexDigit? (c : Char) : Option Nat := "0123456789abcdef".toList.idxOf? c.toLower

/-- The value of four hexadecimal digits. -/
def codeUnit? (a b c d : Char) : Option Nat := do
  return (((← hexDigit? a) * 16 + (← hexDigit? b)) * 16 + (← hexDigit? c)) * 16 + (← hexDigit? d)

/-- The character that two surrogates stand for. -/
def surrogates? (high low : Nat) : Option Char :=
  if (0xD800 ≤ high ∧ high < 0xDC00) ∧ 0xDC00 ≤ low ∧ low < 0xE000 then
    some (Char.ofNat (0x10000 + (high - 0xD800) * 0x400 + (low - 0xDC00)))
  else none

/-- How a character can be spelled in a string. -/
inductive Element : List Char → Char → Prop
  /-- As itself. -/
  | plain {c : Char} : c ≠ '"' → c ≠ '\\' → 32 ≤ c.toNat → Element [c] c
  /-- By a letter or a mark behind a backslash. -/
  | short {e c : Char} : shortEscapes.lookup e = some c → Element ['\\', e] c
  /-- By its number. -/
  | unit {a b c d : Char} {n : Nat} : codeUnit? a b c d = some n → n.isValidChar →
      Element ['\\', 'u', a, b, c, d] (Char.ofNat n)
  /-- By two surrogates. -/
  | pair {a b c d a' b' c' d' : Char} {n n' : Nat} {x : Char} : codeUnit? a b c d = some n →
      codeUnit? a' b' c' d' = some n' → surrogates? n n' = some x →
      Element ['\\', 'u', a, b, c, d, '\\', 'u', a', b', c', d'] x

/-- How a list of characters can be spelled in a string. -/
inductive Body : List Char → List Char → Prop
  | nil : Body [] []
  | cons {w s : List Char} {c : Char} {cs : List Char} :
      Element w c → Body s cs → Body (w ++ s) (c :: cs)

/-- The characters of brackets, commas and colons. -/
def marks : List (Char × Symbol) :=
  [('[', .openArray), (']', .closeArray), ('\x7b', .openObject), ('\x7d', .closeObject),
    (',', .comma), (':', .colon)]

/-- How a symbol can be spelled. -/
inductive Lexeme : List Char → Symbol → Prop
  | mark {c : Char} {t : Symbol} : marks.lookup c = some t → Lexeme [c] t
  | null : Lexeme ['n', 'u', 'l', 'l'] .null
  | number (n : Nat) : Lexeme (Nat.toDigits 10 n) (.number n)
  | string {s cs : List Char} : Body s cs →
      Lexeme ('"' :: s ++ ['"']) (.string (String.ofList cs))

/-- White space. -/
def spaces : List Char := [' ', '\n', '\r', '\t']

/-- A text does not go on with a digit, which would belong to a number before it. -/
def EndsNumber (cs : List Char) : Prop := ∀ c ∈ cs.head?, c.isDigit = false

/-- How a sequence of symbols can be spelled. -/
inductive Spells : List Char → List Symbol → Prop
  | nil : Spells [] []
  | space {c : Char} {cs : List Char} {ts : List Symbol} :
      c ∈ spaces → Spells cs ts → Spells (c :: cs) ts
  | symbol {w cs : List Char} {t : Symbol} {ts : List Symbol} :
      Lexeme w t → (∀ n, t = .number n → EndsNumber cs) → Spells cs ts → Spells (w ++ cs) (t :: ts)

/-- A text of a value. -/
def IsTextOf (j : Json) (text : String) : Prop := Spells text.toList (symbols j)

/-! ## Characters of strings -/

/-- Read what follows a backslash. -/
def escape? : List Char → Option (Char × List Char)
  | 'u' :: a :: b :: c :: d :: cs =>
    (codeUnit? a b c d).bind fun n =>
      if n.isValidChar then some (Char.ofNat n, cs)
      else
        match cs with
        | '\\' :: 'u' :: a' :: b' :: c' :: d' :: cs =>
          (codeUnit? a' b' c' d').bind fun n' => (surrogates? n n').map (·, cs)
        | _ => none
  | e :: cs => (shortEscapes.lookup e).map (·, cs)
  | [] => none

/-- Read a character of a string. -/
def element? : List Char → Option (Char × List Char)
  | [] => none
  | c :: cs =>
    if c = '\\' then escape? cs
    else if c = '"' ∨ c.toNat < 32 then none
    else some (c, cs)

theorem not_isValidChar_of_surrogates? {n n' : Nat} {x : Char} (h : surrogates? n n' = some x) :
    ¬ n.isValidChar := by
  simp only [surrogates?, Option.ite_none_right_eq_some] at h
  rw [Nat.isValidChar]
  omega

theorem escape?_of_lookup {e c : Char} (h : shortEscapes.lookup e = some c) (cs : List Char) :
    escape? (e :: cs) = some (c, cs) := by
  have hu : e ≠ 'u' := by
    rintro rfl
    cases h
  simp [escape?, hu, h]

theorem element?_append {w : List Char} {c : Char} (h : Element w c) (cs : List Char) :
    element? (w ++ cs) = some (c, cs) := by
  cases h with
  | plain hquote hback hcontrol => simp [element?, hquote, hback, hcontrol]
  | short hlookup => exact escape?_of_lookup hlookup cs
  | unit hunit hvalid => simp [element?, escape?, hunit, hvalid]
  | pair hunit hunit' hpair =>
    simp [element?, escape?, hunit, hunit', hpair, not_isValidChar_of_surrogates? hpair]

theorem exists_of_escape? {cs rest : List Char} {x : Char} (h : escape? cs = some (x, rest)) :
    ∃ w, Element ('\\' :: w) x ∧ cs = w ++ rest := by
  unfold escape? at h
  split at h
  · next a b c d cs =>
    obtain ⟨n, hunit, h⟩ := Option.bind_eq_some_iff.1 h
    split at h
    · next hvalid =>
      cases h
      exact ⟨['u', a, b, c, d], .unit hunit hvalid, rfl⟩
    · split at h
      · next a' b' c' d' cs _ =>
        obtain ⟨n', hunit', h⟩ := Option.bind_eq_some_iff.1 h
        obtain ⟨y, hpair, h⟩ := Option.map_eq_some_iff.1 h
        cases h
        exact ⟨['u', a, b, c, d, '\\', 'u', a', b', c', d'], .pair hunit hunit' hpair, rfl⟩
      · cases h
  · next e cs _ =>
    obtain ⟨y, hlookup, h⟩ := Option.map_eq_some_iff.1 h
    cases h
    exact ⟨[e], .short hlookup, rfl⟩
  · cases h

theorem exists_of_element? {cs rest : List Char} {x : Char} (h : element? cs = some (x, rest)) :
    ∃ w, w ≠ [] ∧ Element w x ∧ cs = w ++ rest := by
  cases cs with
  | nil => cases h
  | cons c cs =>
    rw [element?] at h
    split at h
    · next hback =>
      obtain ⟨w, helement, rfl⟩ := exists_of_escape? h
      exact ⟨'\\' :: w, by simp, helement, by simp [hback]⟩
    · next hback =>
      split at h
      · cases h
      · next hplain =>
        cases h
        rw [not_or, Nat.not_lt] at hplain
        exact ⟨[x], by simp, .plain hplain.1 hback hplain.2, rfl⟩

theorem length_lt_of_eq_append {w cs rest : List Char} (hne : w ≠ []) (h : cs = w ++ rest) :
    rest.length < cs.length := by
  have hw := List.length_pos_iff.2 hne
  rw [h, List.length_append]
  omega

/-! ## Strings -/

/-- What follows the quote that ends a string. -/
def closed? : List Char → Option (List Char × List Char)
  | '"' :: rest => some ([], rest)
  | _ => none

/-- Read a string up to the quote that ends it. -/
def body? (cs : List Char) : Option (List Char × List Char) :=
  match _h : element? cs with
  | some (x, rest) => (body? rest).map fun (xs, rest) => (x :: xs, rest)
  | none => closed? cs
termination_by cs.length
decreasing_by
  obtain ⟨w, hne, -, hcs⟩ := exists_of_element? _h
  exact length_lt_of_eq_append hne hcs

theorem body?_of_element? {cs rest : List Char} {x : Char} (h : element? cs = some (x, rest)) :
    body? cs = (body? rest).map fun (xs, rest) => (x :: xs, rest) := by
  rw [body?]
  split
  · next heq =>
    cases h.symm.trans heq
    rfl
  · next heq => cases h.symm.trans heq

theorem body?_quote (cs : List Char) : body? ('"' :: cs) = some ([], cs) := by
  have hquote : element? ('"' :: cs) = none := by simp [element?]
  rw [body?]
  split
  · next heq => cases hquote.symm.trans heq
  · rfl

theorem body?_append {w xs : List Char} (h : Body w xs) (cs : List Char) :
    body? (w ++ '"' :: cs) = some (xs, cs) := by
  induction h with
  | nil => exact body?_quote cs
  | cons helement _ ih =>
    rw [List.append_assoc, body?_of_element? (element?_append helement _), ih, Option.map_some]

theorem exists_of_body? {cs xs rest : List Char} (h : body? cs = some (xs, rest)) :
    ∃ w, Body w xs ∧ cs = w ++ '"' :: rest := by
  fun_induction body? cs generalizing xs rest with
  | case1 cs x rest' helement ih =>
    obtain ⟨⟨ys, rest''⟩, hrest, h⟩ := Option.map_eq_some_iff.1 h
    cases h
    obtain ⟨w, -, hw, rfl⟩ := exists_of_element? helement
    obtain ⟨s, hs, rfl⟩ := ih hrest
    exact ⟨w ++ s, .cons hw hs, (List.append_assoc ..).symm⟩
  | case2 cs helement =>
    unfold closed? at h
    split at h
    · cases h
      exact ⟨[], .nil, rfl⟩
    · cases h

/-! ## Symbols -/

/-- Read a number, which has no zeros in front. -/
def number? (cs : List Char) : Option (Symbol × List Char) :=
  let digits := cs.takeWhile Char.isDigit
  let n := Nat.ofDigitChars 10 digits 0
  if digits = Nat.toDigits 10 n then some (.number n, cs.dropWhile Char.isDigit) else none

/-- Read a symbol. -/
def lexeme? : List Char → Option (Symbol × List Char)
  | [] => none
  | 'n' :: 'u' :: 'l' :: 'l' :: rest => some (.null, rest)
  | c :: rest =>
    if c = '"' then (body? rest).map fun (xs, rest) => (.string (String.ofList xs), rest)
    else
      match marks.lookup c with
      | some t => some (t, rest)
      | none => number? (c :: rest)

theorem number?_append {n : Nat} {cs : List Char} (h : EndsNumber cs) :
    number? (Nat.toDigits 10 n ++ cs) = some (.number n, cs) := by
  have hend : cs.takeWhile Char.isDigit = [] ∧ cs.dropWhile Char.isDigit = cs := by
    cases cs with
    | nil => simp
    | cons c cs => simp [h c rfl]
  have hdigits : ∀ c ∈ Nat.toDigits 10 n, c.isDigit = true := fun _ =>
    Nat.isDigit_of_mem_toDigits (by decide) (by decide)
  have hvalue : Nat.ofDigitChars 10 (Nat.toDigits 10 n) 0 = n :=
    Nat.ofDigitChars_toDigits (by decide) (by decide)
  simp only [number?, List.takeWhile_append_of_pos hdigits, List.dropWhile_append_of_pos hdigits,
    hend, List.append_nil, hvalue, if_true]

theorem exists_of_number? {cs rest : List Char} {t : Symbol} (h : number? cs = some (t, rest)) :
    ∃ w, w ≠ [] ∧ Lexeme w t ∧ cs = w ++ rest ∧ EndsNumber rest := by
  obtain ⟨hdigits, h⟩ := Option.ite_none_right_eq_some.1 h
  cases h
  refine ⟨cs.takeWhile Char.isDigit, ?_, ?_, List.takeWhile_append_dropWhile.symm, ?_⟩
  · rw [hdigits]
    exact Nat.toDigits_ne_nil
  · have hnumber := Lexeme.number (Nat.ofDigitChars 10 (cs.takeWhile Char.isDigit) 0)
    rwa [← hdigits] at hnumber
  · exact head?_dropWhile_eq_false Char.isDigit cs

theorem mem_marks_of_lookup {c : Char} {t : Symbol} (h : marks.lookup c = some t) :
    (c, t) ∈ marks := by
  obtain ⟨before, after, hmarks, -⟩ := List.lookup_eq_some_iff.1 h
  rw [hmarks]
  exact List.mem_append_right _ List.mem_cons_self

theorem lookup_marks_ne_number (c : Char) (n : Nat) : marks.lookup c ≠ some (.number n) := by
  intro h
  simpa [marks] using mem_marks_of_lookup h

/-- A text that starts with a digit starts with a number. -/
theorem lexeme?_of_isDigit {c : Char} (h : c.isDigit = true) (cs : List Char) :
    lexeme? (c :: cs) = number? (c :: cs) := by
  have hmarks : marks.lookup c = none := by
    cases hlookup : marks.lookup c with
    | none => rfl
    | some t =>
      have hdigit : ∀ p ∈ marks, p.1.isDigit = false := by decide
      exact absurd (hdigit _ (mem_marks_of_lookup hlookup)) (by simp [h])
  have hnull : c ≠ 'n' := by
    rintro rfl
    cases h
  have hquote : c ≠ '"' := by
    rintro rfl
    cases h
  simp [lexeme?, hnull, hquote, hmarks]

/-- No symbol starts with another character. -/
theorem lexeme?_eq_none {c : Char} (hnull : c ≠ 'n') (hquote : c ≠ '"')
    (hmarks : marks.lookup c = none) (hdigit : c.isDigit = false) (cs : List Char) :
    lexeme? (c :: cs) = none := by
  simp [lexeme?, hnull, hquote, hmarks, number?, hdigit]

theorem lexeme?_append {w cs : List Char} {t : Symbol} (h : Lexeme w t)
    (hend : ∀ n, t = .number n → EndsNumber cs) : lexeme? (w ++ cs) = some (t, cs) := by
  cases h with
  | mark hlookup =>
    have hmem := mem_marks_of_lookup hlookup
    simp only [marks, List.mem_cons, Prod.mk.injEq, List.not_mem_nil, or_false] at hmem
    rcases hmem with ⟨rfl, rfl⟩ | ⟨rfl, rfl⟩ | ⟨rfl, rfl⟩ | ⟨rfl, rfl⟩ | ⟨rfl, rfl⟩ | ⟨rfl, rfl⟩ <;>
      rfl
  | null => rfl
  | number n =>
    obtain ⟨c, digits, hcons⟩ := List.exists_cons_of_ne_nil (Nat.toDigits_ne_nil (n := n) (b := 10))
    have hdigit : c.isDigit = true :=
      Nat.isDigit_of_mem_toDigits (b := 10) (n := n) (by decide) (by decide) (by simp [hcons])
    rw [← number?_append (hend n rfl), hcons, List.cons_append, lexeme?_of_isDigit hdigit]
  | string hbody => simp [lexeme?, body?_append hbody]

theorem exists_of_lexeme? {cs rest : List Char} {t : Symbol} (h : lexeme? cs = some (t, rest)) :
    ∃ w, w ≠ [] ∧ Lexeme w t ∧ cs = w ++ rest ∧ ∀ n, t = .number n → EndsNumber rest := by
  unfold lexeme? at h
  split at h
  · cases h
  · cases h
    exact ⟨_, by simp, .null, rfl, nofun⟩
  · next c cs _ =>
    split at h
    · next hquote =>
      obtain ⟨⟨xs, rest'⟩, hbody, h⟩ := Option.map_eq_some_iff.1 h
      cases h
      obtain ⟨w, hw, rfl⟩ := exists_of_body? hbody
      exact ⟨'"' :: w ++ ['"'], by simp, .string hw, by simp [hquote], nofun⟩
    · split at h
      · next t' hlookup =>
        cases h
        exact ⟨[c], by simp, .mark hlookup, rfl, fun n ht =>
          absurd (ht ▸ hlookup) (lookup_marks_ne_number c n)⟩
      · obtain ⟨w, hne, hw, hcs, hend⟩ := exists_of_number? h
        exact ⟨w, hne, hw, hcs, fun _ _ => hend⟩

/-- Read all symbols of a text. -/
def symbols? (cs : List Char) : Option (List Symbol) :=
  match _h : lexeme? cs with
  | some (t, rest) => (symbols? rest).map (t :: ·)
  | none =>
    match cs with
    | [] => some []
    | c :: rest => if c ∈ spaces then symbols? rest else none
termination_by cs.length
decreasing_by
  · obtain ⟨w, hne, -, hcs, -⟩ := exists_of_lexeme? _h
    exact length_lt_of_eq_append hne hcs
  · exact Nat.lt_succ_self rest.length

theorem symbols?_of_lexeme? {cs rest : List Char} {t : Symbol} (h : lexeme? cs = some (t, rest)) :
    symbols? cs = (symbols? rest).map (t :: ·) := by
  rw [symbols?]
  split
  · next heq =>
    cases h.symm.trans heq
    rfl
  · next heq => cases h.symm.trans heq

theorem symbols?_of_mem_spaces {c : Char} (h : c ∈ spaces) (cs : List Char) :
    symbols? (c :: cs) = symbols? cs := by
  have hnone : lexeme? (c :: cs) = none := by
    simp only [spaces, List.mem_cons, List.not_mem_nil, or_false] at h
    rcases h with rfl | rfl | rfl | rfl <;>
      exact lexeme?_eq_none (by decide) (by decide) rfl rfl cs
  rw [symbols?]
  split
  · next heq => cases hnone.symm.trans heq
  · exact if_pos h

/-- The symbols of a text are those that it spells. -/
theorem symbols?_eq_some_iff {cs : List Char} {ts : List Symbol} :
    symbols? cs = some ts ↔ Spells cs ts := by
  constructor
  · intro h
    fun_induction symbols? cs generalizing ts with
    | case1 cs t rest hlexeme ih =>
      obtain ⟨ts, hrest, rfl⟩ := Option.map_eq_some_iff.1 h
      obtain ⟨w, -, hw, rfl, hend⟩ := exists_of_lexeme? hlexeme
      exact .symbol hw hend (ih hrest)
    | case2 =>
      cases h
      exact .nil
    | case3 c rest _ hspace ih => exact .space hspace (ih h)
    | case4 => cases h
  · intro h
    induction h with
    | nil => simp [symbols?, lexeme?]
    | space hspace _ ih => rw [symbols?_of_mem_spaces hspace, ih]
    | symbol hw hend _ ih => rw [symbols?_of_lexeme? (lexeme?_append hw hend), ih, Option.map_some]

/-! ## Values -/

/-- Read a text. -/
def ofText? (text : String) : Option Json := (symbols? text.toList).bind ofSymbols?

/-- **A text is read as a value if and only if it is a text of that value.** -/
theorem ofText?_eq_some_iff {text : String} {j : Json} :
    ofText? text = some j ↔ j.IsTextOf text := by
  rw [ofText?, Option.bind_eq_some_iff, IsTextOf, ← symbols?_eq_some_iff]
  constructor
  · rintro ⟨ts, hts, hj⟩
    rw [hts, ofSymbols?_eq_some_iff.1 hj]
  · exact fun h => ⟨_, h, ofSymbols?_eq_some_iff.2 rfl⟩

/-- A text has one value. -/
theorem IsTextOf.unique {text : String} {j j' : Json} (h : j.IsTextOf text)
    (h' : j'.IsTextOf text) : j = j' :=
  Option.some.inj ((ofText?_eq_some_iff.2 h).symm.trans (ofText?_eq_some_iff.2 h'))

end FeatureDoc.Json
