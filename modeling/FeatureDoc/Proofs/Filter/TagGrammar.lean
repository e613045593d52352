import FeatureDoc.Filter.TagExpr
import FeatureDoc.Proofs.Computation
import FeatureDoc.Proofs.Text.Bytes
import FeatureDoc.Proofs.Text.TakeWhile
import FeatureDoc.Proofs.Text.Trim
import Mathlib.Algebra.Ring.Parity
import Mathlib.Logic.Function.Iterate
import Mathlib.Tactic.Tauto

/-!
# The grammar of tag expressions

A tag expression is a run of atoms between double ampersands, and an atom is a tag with any number
of negations. Spaces may stand around an atom and after each negation, but not after the at sign.

* `TagAtom.Written a cs rest` says that the text `cs` starts with the atom `a` and goes on with
  `rest`; `TagExpr.Written` is the grammar of a whole expression.
* `TagExpr.Splits` has one rule for each way in which a text can start; `TagExpr.splits_pieces` says
  that its pieces follow these rules. The name of a tag, which is cut out of the whole text, is never
  missing (`TagExpr.slice?_name`).
* `TagExpr.parse_eq_ok_iff` says that the grammar is what is accepted, and that an expression is the
  conjunction of its atoms, `TagExpr.holds_conj` what such a conjunction says.
* `TagExpr.parse_iff_written` is the main statement.
-/

namespace FeatureDoc

/-- A tag with some negations in front of it. -/
structure TagAtom where
  /-- How often it is negated. -/
  negations : Nat
  /-- The name of the tag. -/
  name : String
  deriving DecidableEq, Repr

/-- The condition that an atom stands for. -/
def TagAtom.expr (a : TagAtom) : TagExpr := TagExpr.not^[a.negations] (.tag a.name)

/-- The atom with one negation more. -/
def TagAtom.negate (a : TagAtom) : TagAtom := { a with negations := a.negations + 1 }

theorem TagAtom.expr_negate (a : TagAtom) : a.negate.expr = .not a.expr :=
  Function.iterate_succ_apply' _ _ _

/-- The text `cs` starts with the atom `a`, and `rest` comes after it. The name goes as far as
there are tag characters. -/
inductive TagAtom.Written : TagAtom → List Char → List Char → Prop where
  /-- An at sign and a name. -/
  | tag {name rest : List Char} (hne : name ≠ []) (hname : ∀ c ∈ name, Text.isTagChar c = true)
      (hstop : ∀ c ∈ rest.head?, Text.isTagChar c = false) :
      Written ⟨0, String.ofList name⟩ ('@' :: (name ++ rest)) rest
  /-- A tilde in front of an atom. -/
  | not {a : TagAtom} {w cs rest : List Char} (hw : Text.IsBlank w) (h : a.Written cs rest) :
      Written a.negate ('~' :: (w ++ cs)) rest

namespace TagExpr

/-- Atoms with two ampersands in front of each, up to the end of the text. -/
inductive WrittenRest : List TagAtom → List Char → Prop where
  /-- No more atoms. -/
  | nil {w : List Char} (hw : Text.IsBlank w) : WrittenRest [] w
  /-- Two ampersands and an atom. -/
  | cons {a : TagAtom} {as : List TagAtom} {w w' cs rest : List Char} (hw : Text.IsBlank w)
      (hw' : Text.IsBlank w') (h : a.Written cs rest) (hrest : WrittenRest as rest) :
      WrittenRest (a :: as) (w ++ '&' :: '&' :: (w' ++ cs))

/-- The text is a tag expression with these atoms. -/
inductive Written : List TagAtom → List Char → Prop where
  /-- An atom, and others after it. -/
  | mk {a : TagAtom} {as : List TagAtom} {w cs rest : List Char} (hw : Text.IsBlank w)
      (h : a.Written cs rest) (hrest : WrittenRest as rest) : Written (a :: as) (w ++ cs)

/-- There is an atom. -/
theorem Written.exists_cons {atoms : List TagAtom} {cs : List Char} (h : Written atoms cs) :
    ∃ a as, atoms = a :: as := by
  cases h
  exact ⟨_, _, rfl⟩

/-- The conjunction of some conditions, nested to the left. -/
def conj (e : TagExpr) (as : List TagAtom) : TagExpr := as.foldl (fun e a => .and e a.expr) e

theorem conj_cons (e : TagExpr) (a : TagAtom) (as : List TagAtom) :
    e.conj (a :: as) = (TagExpr.and e a.expr).conj as := rfl

/-! ## Pieces -/

section Pieces

variable {text cs rest : List Char} {offset : ℕ}

theorem pieces_space {c : Char} (h : Text.isSpace c = true) (text : List Char) (offset : ℕ)
    (cs : List Char) : pieces text offset (c :: cs) = pieces text (offset + c.utf8Size) cs := by
  rw [pieces, if_pos h]

/-- Spaces only move what comes after them. -/
theorem exists_pieces_append {w : List Char} (hw : Text.IsBlank w)
    (hrest : Text.IsRest text offset (w ++ cs)) :
    ∃ offset', Text.IsRest text offset' cs ∧
      pieces text offset (w ++ cs) = pieces text offset' cs := by
  induction w generalizing offset with
  | nil => exact ⟨offset, hrest, rfl⟩
  | cons c w ih =>
    obtain ⟨hc, hw⟩ := List.forall_mem_cons.1 hw
    obtain ⟨offset', hrest', h⟩ := ih hw hrest.cons
    exact ⟨offset', hrest', by rw [List.cons_append, pieces_space hc, h]⟩

/-- **The name of a tag is never missing**: behind the at sign, the text can be cut where the tag
characters end. -/
theorem slice?_name (h : Text.IsRest text offset ('@' :: cs)) :
    Text.slice? text (offset + 1)
        (offset + 1 + Text.byteLength (cs.takeWhile Text.isTagChar)) =
      some (cs.takeWhile Text.isTagChar) := by
  have hcs : Text.IsRest text (offset + 1)
      (cs.takeWhile Text.isTagChar ++ cs.dropWhile Text.isTagChar) := by
    rw [List.takeWhile_append_dropWhile]
    exact h.cons
  exact hcs.slice?

theorem pieces_at (h : Text.IsRest text offset ('@' :: cs)) : pieces text offset ('@' :: cs) =
    if (cs.takeWhile Text.isTagChar).isEmpty then [⟨.bad .missingName, offset + 1⟩]
    else ⟨.tag (String.ofList (cs.takeWhile Text.isTagChar)), offset⟩ ::
      pieces text (offset + 1 + Text.byteLength (cs.takeWhile Text.isTagChar))
        (cs.dropWhile Text.isTagChar) := by
  rw [pieces, if_neg (by decide), if_pos rfl]
  dsimp only
  rw [slice?_name h]
  cases cs.takeWhile Text.isTagChar <;> rfl

theorem pieces_tilde (text : List Char) (offset : ℕ) (cs : List Char) :
    pieces text offset ('~' :: cs) = ⟨.not, offset⟩ :: pieces text (offset + 1) cs := by
  rw [pieces, if_neg (by decide), if_neg (by decide), if_pos rfl]

theorem pieces_ampersands (text : List Char) (offset : ℕ) (cs : List Char) :
    pieces text offset ('&' :: '&' :: cs) = ⟨.and, offset⟩ :: pieces text (offset + 2) cs := by
  rw [pieces, if_neg (by decide), if_neg (by decide), if_neg (by decide), if_pos rfl,
    if_pos List.head?_cons, List.tail_cons]

/-- A name is one piece. -/
theorem pieces_tag {name : List Char} (hne : name ≠ [])
    (hname : ∀ c ∈ name, Text.isTagChar c = true)
    (hstop : ∀ c ∈ rest.head?, Text.isTagChar c = false)
    (hrest : Text.IsRest text offset ('@' :: (name ++ rest))) :
    ∃ offset', Text.IsRest text offset' rest ∧ pieces text offset ('@' :: (name ++ rest)) =
      ⟨.tag (String.ofList name), offset⟩ :: pieces text offset' rest := by
  obtain ⟨htake, hdrop⟩ := takeWhile_append_stop hname hstop
  refine ⟨offset + 1 + Text.byteLength name, hrest.cons.append, ?_⟩
  rw [pieces_at hrest, htake, hdrop, if_neg (by simpa using hne)]

/-- The pieces of a text that starts at an offset, one rule for each way in which it can start. -/
inductive Splits : ℕ → List Char → List Piece → Prop where
  /-- The text has ended. -/
  | stop {offset : ℕ} : Splits offset [] [⟨.stop, offset⟩]
  /-- A space is passed. -/
  | space {offset : ℕ} {c : Char} {cs : List Char} {ps : List Piece}
      (hspace : Text.isSpace c = true) (h : Splits (offset + c.utf8Size) cs ps) :
      Splits offset (c :: cs) ps
  /-- An at sign without a name. -/
  | missingName {offset : ℕ} {cs : List Char} (h : ∀ c ∈ cs.head?, Text.isTagChar c = false) :
      Splits offset ('@' :: cs) [⟨.bad .missingName, offset + 1⟩]
  /-- An at sign and a name. -/
  | tag {offset : ℕ} {name rest : List Char} {ps : List Piece} (hne : name ≠ [])
      (hname : ∀ c ∈ name, Text.isTagChar c = true)
      (hstop : ∀ c ∈ rest.head?, Text.isTagChar c = false)
      (h : Splits (offset + 1 + Text.byteLength name) rest ps) :
      Splits offset ('@' :: (name ++ rest)) (⟨.tag (String.ofList name), offset⟩ :: ps)
  /-- A tilde. -/
  | not {offset : ℕ} {cs : List Char} {ps : List Piece} (h : Splits (offset + 1) cs ps) :
      Splits offset ('~' :: cs) (⟨.not, offset⟩ :: ps)
  /-- Two ampersands. -/
  | and {offset : ℕ} {cs : List Char} {ps : List Piece} (h : Splits (offset + 2) cs ps) :
      Splits offset ('&' :: '&' :: cs) (⟨.and, offset⟩ :: ps)
  /-- An ampersand alone. -/
  | loneAmpersand {offset : ℕ} {cs : List Char} (h : cs.head? ≠ some '&') :
      Splits offset ('&' :: cs) [⟨.bad .loneAmpersand, offset⟩]
  /-- A character that starts nothing. -/
  | unexpectedChar {offset : ℕ} {c : Char} {cs : List Char} (hspace : Text.isSpace c = false)
      (h : c ∉ ['@', '~', '&']) : Splits offset (c :: cs) [⟨.bad (.unexpectedChar c), offset⟩]

/-- **The pieces of a text follow the rules**, of which none is about the boundaries of a name. -/
theorem splits_pieces (hrest : Text.IsRest text offset cs) :
    Splits offset cs (pieces text offset cs) := by
  induction offset, cs using pieces.induct text with
  | case1 offset =>
    rw [pieces]
    exact .stop
  | case2 offset c cs hspace ih =>
    rw [pieces_space hspace]
    exact .space hspace (ih hrest.cons)
  | case3 offset cs stop hslice =>
    rw [slice?_name hrest] at hslice
    cases hslice
  | case4 offset cs stop hslice =>
    have hname := Option.some.inj ((slice?_name hrest).symm.trans hslice)
    rw [pieces_at hrest, hname]
    exact .missingName (head?_of_takeWhile_append (l := []) hname)
  | case5 offset cs stop name hne hslice _ ih =>
    obtain rfl := Option.some.inj ((slice?_name hrest).symm.trans hslice)
    have hcs := List.takeWhile_append_dropWhile (p := Text.isTagChar) (l := cs)
    rw [pieces_at hrest, if_neg fun hnil => hne (List.isEmpty_iff.1 hnil)]
    have htag := Splits.tag hne (fun c hc => List.mem_takeWhile_imp hc)
      (head?_dropWhile_eq_false Text.isTagChar cs) (ih (hcs.symm ▸ hrest.cons).append)
    rwa [hcs] at htag
  | case6 offset cs _ _ ih =>
    rw [pieces_tilde]
    exact .not (ih hrest.cons)
  | case7 offset cs hamp _ _ _ ih =>
    obtain ⟨cs, rfl⟩ := List.head?_eq_some_iff.1 hamp
    rw [pieces_ampersands]
    exact .and (ih hrest.cons.cons)
  | case8 offset cs hamp h₁ h₂ h₃ =>
    rw [pieces, if_neg h₁, if_neg h₂, if_neg h₃, if_pos rfl, if_neg hamp]
    exact .loneAmpersand hamp
  | case9 offset c cs h₁ h₂ h₃ h₄ =>
    rw [pieces, if_neg h₁, if_neg h₂, if_neg h₃, if_neg h₄]
    exact .unexpectedChar (by simpa using h₁) (by simp [h₂, h₃, h₄])

end Pieces

/-! ## What is written is read -/

theorem parseRight_eq_ok {ps rest : List Piece} {e : TagExpr} :
    parseRight ps = .ok (e, rest) ↔ parseAtom ps = .ok (e, rest) := by
  unfold parseRight
  rcases ps with _ | ⟨p, ps⟩
  · rfl
  dsimp only
  split
  · next h =>
    rcases h with h | h <;> simp [parseAtom, refuse, h]
  · rfl

/-- After an operator comes its right side, and then the rest. -/
theorem parseRest_and {p : Piece} (hp : p.symbol = .and) (left : TagExpr) (ps : List Piece) :
    parseRest left (p :: ps) =
      parseRight ps >>= fun (right, rest) => parseRest (.and left right) rest := by
  rw [parseRest, hp]
  dsimp only
  split
  · next hright =>
    rw [hright]
    rfl
  · next hright =>
    rw [hright]
    rfl

theorem parseAtom_of_written {a : TagAtom} {text cs rest : List Char} {offset : ℕ}
    (h : a.Written cs rest) (hrest : Text.IsRest text offset cs) :
    ∃ offset', Text.IsRest text offset' rest ∧
      parseAtom (pieces text offset cs) = .ok (a.expr, pieces text offset' rest) := by
  induction h generalizing offset with
  | tag hne hname hstop =>
    obtain ⟨offset', hrest', htag⟩ := pieces_tag hne hname hstop hrest
    refine ⟨offset', hrest', ?_⟩
    rw [htag, parseAtom]
    rfl
  | @not a w cs rest hw _ ih =>
    have hbody : Text.IsRest text (offset + 1) (w ++ cs) := hrest.cons
    obtain ⟨offset₁, hrest₁, hblank⟩ := exists_pieces_append hw hbody
    obtain ⟨offset', hrest', hatom⟩ := ih hrest₁
    refine ⟨offset', hrest', ?_⟩
    rw [pieces_tilde, hblank, parseAtom]
    dsimp only
    rw [hatom, TagAtom.expr_negate]
    rfl

theorem parseRest_of_written {as : List TagAtom} {text cs : List Char} {offset : ℕ}
    (h : WrittenRest as cs) (hrest : Text.IsRest text offset cs) (left : TagExpr) :
    parseRest left (pieces text offset cs) = .ok (left.conj as) := by
  induction h generalizing left offset with
  | @nil w hw =>
    rw [← List.append_nil w] at hrest ⊢
    obtain ⟨offset', -, hblank⟩ := exists_pieces_append hw hrest
    rw [hblank, pieces, parseRest]
    rfl
  | @cons a as w w' cs rest hw hw' hatom _ ih =>
    obtain ⟨offset₁, hrest₁, hblank⟩ := exists_pieces_append hw hrest
    have hbody : Text.IsRest text (offset₁ + 2) (w' ++ cs) := hrest₁.cons.cons
    obtain ⟨offset₂, hrest₂, hblank'⟩ := exists_pieces_append hw' hbody
    obtain ⟨offset₃, hrest₃, hright⟩ := parseAtom_of_written hatom hrest₂
    rw [hblank, pieces_ampersands, hblank', parseRest_and rfl, parseRight_eq_ok.2 hright]
    exact ih hrest₃ _

/-! ## What is read is written -/

theorem length_lt_of_written {a : TagAtom} {cs rest : List Char} (h : a.Written cs rest) :
    rest.length < cs.length := by
  induction h with
  | tag =>
    rw [List.length_cons, List.length_append]
    omega
  | not _ _ ih =>
    rw [List.length_cons, List.length_append]
    omega

/-- An atom that is read is written after some spaces. -/
theorem written_of_parseAtom {offset : ℕ} {cs : List Char} {e : TagExpr} {ps rest : List Piece}
    (hsplits : Splits offset cs ps) (h : parseAtom ps = .ok (e, rest)) :
    ∃ (a : TagAtom) (w cs' left : List Char) (offset' : ℕ), cs = w ++ cs' ∧ Text.IsBlank w ∧
      a.Written cs' left ∧ e = a.expr ∧ Splits offset' left rest := by
  induction hsplits generalizing e rest with
  | stop => cases h
  | space hspace _ ih =>
    obtain ⟨a, w, cs', left, offset', rfl, hw, ha, he, hsplits⟩ := ih h
    exact ⟨a, _ :: w, cs', left, offset', rfl, List.forall_mem_cons.2 ⟨hspace, hw⟩, ha, he, hsplits⟩
  | missingName => cases h
  | tag hne hname hstop hsplits =>
    cases h
    exact ⟨_, [], _, _, _, rfl, List.forall_mem_nil _, .tag hne hname hstop, rfl, hsplits⟩
  | @not offset cs ps _ ih =>
    rw [parseAtom] at h
    dsimp only at h
    rcases hatom : parseAtom ps with _ | ⟨e', rest'⟩
    · rw [hatom] at h
      cases h
    · rw [hatom] at h
      cases h
      obtain ⟨a, w, cs', left, offset', rfl, hw, ha, rfl, hsplits⟩ := ih hatom
      exact ⟨a.negate, [], _, left, offset', rfl, List.forall_mem_nil _, .not hw ha,
        a.expr_negate.symm, hsplits⟩
  | and => cases h
  | loneAmpersand => cases h
  | unexpectedChar => cases h

theorem WrittenRest.space {as : List TagAtom} {c : Char} {cs : List Char}
    (hc : Text.isSpace c = true) (h : WrittenRest as cs) : WrittenRest as (c :: cs) := by
  cases h with
  | nil hw => exact .nil (List.forall_mem_cons.2 ⟨hc, hw⟩)
  | cons hw hw' h hrest => exact .cons (w := c :: _) (List.forall_mem_cons.2 ⟨hc, hw⟩) hw' h hrest

/-- What is read up to the end of the text is written. The induction is on the length of the text,
since an operator and the atom after it are read at once. -/
theorem written_of_parseRest {left e : TagExpr} {offset : ℕ} {cs : List Char} {ps : List Piece}
    (hsplits : Splits offset cs ps) (h : parseRest left ps = .ok e) :
    ∃ as, WrittenRest as cs ∧ e = left.conj as := by
  induction hn : cs.length using Nat.strong_induction_on generalizing left offset cs ps with
  | _ n ih =>
    subst hn
    cases hsplits with
    | stop =>
      rw [parseRest] at h
      cases h
      exact ⟨[], .nil (List.forall_mem_nil _), rfl⟩
    | space hspace hsplits =>
      obtain ⟨as, has, he⟩ := ih _ (Nat.lt_succ_self _) hsplits h rfl
      exact ⟨as, has.space hspace, he⟩
    | @and offset cs ps hsplits =>
      rw [parseRest_and rfl] at h
      obtain ⟨⟨right, ps'⟩, hright, h⟩ := bind_eq_ok_iff.1 h
      obtain ⟨a, w, cs', rest, offset', rfl, hw, ha, rfl, hsplits'⟩ :=
        written_of_parseAtom hsplits (parseRight_eq_ok.1 hright)
      have hlt : rest.length < ('&' :: '&' :: (w ++ cs')).length := by
        have := length_lt_of_written ha
        simp only [List.length_cons, List.length_append]
        omega
      obtain ⟨as, has, rfl⟩ := ih rest.length hlt hsplits' h rfl
      exact ⟨a :: as, .cons (w := []) (List.forall_mem_nil _) hw ha has, rfl⟩
    | missingName | tag | not | loneAmpersand | unexpectedChar =>
      rw [parseRest] at h
      cases h

/-- **The grammar is what is accepted**, and an expression is the conjunction of its atoms. -/
theorem parse_eq_ok_iff {input : String} {e : TagExpr} :
    parse input = .ok e ↔
      ∃ a as, Written (a :: as) input.toList ∧ e = a.expr.conj as := by
  have hinput := Text.IsRest.zero input.toList
  constructor
  · intro h
    rw [parse] at h
    rcases hatom : parseAtom (pieces input.toList 0 input.toList) with _ | ⟨left, ps⟩
    · rw [hatom] at h
      cases h
    · rw [hatom] at h
      obtain ⟨a, w, cs', rest, offset', hcs, hw, ha, rfl, hsplits⟩ :=
        written_of_parseAtom (splits_pieces hinput) hatom
      obtain ⟨as, has, rfl⟩ := written_of_parseRest hsplits (show parseRest _ _ = .ok e from h)
      exact ⟨a, as, hcs ▸ .mk hw ha has, rfl⟩
  · rintro ⟨a, as, hwritten, rfl⟩
    rw [parse]
    generalize hcs : input.toList = cs at hwritten hinput
    cases hwritten with
    | mk hw ha has =>
      obtain ⟨offset₁, hrest₁, hblank⟩ := exists_pieces_append hw hinput
      obtain ⟨offset₂, hrest₂, hatom⟩ := parseAtom_of_written ha hrest₁
      rw [hblank, hatom]
      exact parseRest_of_written has hrest₂ _

/-! ## One tag -/

section Tag

variable {name : String} (hne : name ≠ "") (hname : ∀ c ∈ name.toList, Text.isTagChar c = true)

include hne hname

theorem written_tag : TagAtom.Written ⟨0, name⟩ ('@' :: name.toList) [] := by
  have hnil : name.toList ≠ [] := fun h => hne (String.toList_eq_nil_iff.1 h)
  have h := @TagAtom.Written.tag name.toList [] hnil hname (by simp)
  rwa [List.append_nil, String.ofList_toList] at h

theorem parse_tag : parse ("@" ++ name) = .ok (.tag name) := by
  have htext : ("@" ++ name).toList = [] ++ '@' :: name.toList := String.toList_append
  refine parse_eq_ok_iff.2 ⟨⟨0, name⟩, [], ?_, rfl⟩
  rw [htext]
  exact .mk (List.forall_mem_nil _) (written_tag hne hname) (.nil (List.forall_mem_nil _))

theorem parse_not_tag : parse ("~@" ++ name) = .ok (.not (.tag name)) := by
  have htext : ("~@" ++ name).toList = [] ++ '~' :: ([] ++ '@' :: name.toList) :=
    String.toList_append
  refine parse_eq_ok_iff.2 ⟨⟨1, name⟩, [], ?_, rfl⟩
  rw [htext]
  exact .mk (List.forall_mem_nil _) (.not (List.forall_mem_nil _) (written_tag hne hname))
    (.nil (List.forall_mem_nil _))

end Tag

/-! ## What an expression says -/

theorem holds_expr (a : TagAtom) (tags : List String) :
    a.expr.holds tags = true ↔ ¬ (a.name ∈ tags ↔ Odd a.negations) := by
  obtain ⟨n, name⟩ := a
  induction n with
  | zero => simp [TagAtom.expr, holds]
  | succ n ih =>
    have hnegate : TagAtom.expr ⟨n + 1, name⟩ = .not (TagAtom.expr ⟨n, name⟩) :=
      TagAtom.expr_negate ⟨n, name⟩
    rw [hnegate, holds, Bool.not_eq_true', ← Bool.not_eq_true, ih, Nat.odd_add_one]
    tauto

/-- A conjunction holds if all of its parts do. -/
theorem holds_conj (e : TagExpr) (as : List TagAtom) (tags : List String) :
    (e.conj as).holds tags = true ↔
      e.holds tags = true ∧ ∀ a ∈ as, a.expr.holds tags = true := by
  induction as generalizing e with
  | nil => simp [conj]
  | cons a as ih => rw [conj_cons, ih, holds, Bool.and_eq_true, List.forall_mem_cons, and_assoc]

/-- **Tag expressions.** A text is accepted if and only if it follows the grammar. It then holds of
some tags if and only if for each of its atoms, whether the tag is there differs from whether it is
negated an odd number of times; without tags this says that each atom is. -/
theorem parse_iff_written (input : String) :
    ((∃ e, parse input = .ok e) ↔ ∃ atoms, Written atoms input.toList) ∧
      ∀ e atoms, parse input = .ok e → Written atoms input.toList →
        (∀ tags, e.holds tags = true ↔ ∀ a ∈ atoms, ¬ (a.name ∈ tags ↔ Odd a.negations)) ∧
          (e.holds [] = true ↔ ∀ a ∈ atoms, Odd a.negations) := by
  have hholds : ∀ e atoms, parse input = .ok e → Written atoms input.toList → ∀ tags,
      e.holds tags = true ↔ ∀ a ∈ atoms, ¬ (a.name ∈ tags ↔ Odd a.negations) := by
    intro e atoms hparse hwritten tags
    obtain ⟨a, as, rfl⟩ := hwritten.exists_cons
    rw [parse_eq_ok_iff.2 ⟨a, as, hwritten, rfl⟩] at hparse
    cases hparse
    simp only [holds_conj, holds_expr, List.forall_mem_cons]
  refine ⟨⟨?_, ?_⟩, fun e atoms hparse hwritten => ⟨hholds e atoms hparse hwritten, ?_⟩⟩
  · rintro ⟨e, hparse⟩
    obtain ⟨a, as, hwritten, -⟩ := parse_eq_ok_iff.1 hparse
    exact ⟨a :: as, hwritten⟩
  · rintro ⟨atoms, hwritten⟩
    obtain ⟨a, as, rfl⟩ := hwritten.exists_cons
    exact ⟨_, parse_eq_ok_iff.2 ⟨a, as, hwritten, rfl⟩⟩
  · rw [hholds e atoms hparse hwritten]
    simp

/-- Spaces after a tilde and around the operator, and two negations that cancel. -/
theorem parse_iff_written_spaced :
    ∃ e, parse " ~ ~@a\t&& ~@b.c " = .ok e ∧ e.holds ["a", "b"] = true ∧
      ¬ e.holds ["a", "b.c"] = true := by
  have hspace : Text.IsBlank [' '] := List.forall_mem_singleton.2 (by decide)
  have htab : Text.IsBlank ['\t'] := List.forall_mem_singleton.2 (by decide)
  have hnone : Text.IsBlank [] := List.forall_mem_nil _
  have htabStop : "\t&& ~@b.c ".toList.head? = some '\t' := by decide +kernel
  have ha : TagAtom.Written ⟨2, "a"⟩ "~ ~@a\t&& ~@b.c ".toList "\t&& ~@b.c ".toList := by
    refine .not hspace (.not hnone (@TagAtom.Written.tag ['a'] _ (by decide)
      (List.all_eq_true.1 (by decide +kernel)) fun c hc => ?_))
    cases htabStop.symm.trans hc
    decide +kernel
  have hb : TagAtom.Written ⟨1, "b.c"⟩ "~@b.c ".toList [' '] := by
    refine .not hnone (@TagAtom.Written.tag ['b', '.', 'c'] _ (by decide)
      (List.all_eq_true.1 (by decide +kernel)) fun c hc => ?_)
    cases hc
    decide +kernel
  have hwritten : Written [⟨2, "a"⟩, ⟨1, "b.c"⟩] " ~ ~@a\t&& ~@b.c ".toList :=
    .mk hspace ha (.cons htab hspace hb (.nil hspace))
  obtain ⟨e, he⟩ := (parse_iff_written " ~ ~@a\t&& ~@b.c ").1.2 ⟨_, hwritten⟩
  have hholds := ((parse_iff_written " ~ ~@a\t&& ~@b.c ").2 e _ he hwritten).1
  exact ⟨e, he, (hholds _).2 (by decide), fun h => absurd ((hholds _).1 h) (by decide)⟩

end TagExpr

end FeatureDoc
