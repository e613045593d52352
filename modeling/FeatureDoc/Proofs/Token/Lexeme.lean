import FeatureDoc.Token.Lexeme
import Mathlib.Data.List.Chain
import Mathlib.Data.List.TakeWhile
import Mathlib.Tactic.Set
import Mathlib.Tactic.SplitIfs

/-!
# What lexemes look like

The kind of a lexeme says which characters its literal may hold, how many lines it takes up and, for
a cell and a comment, what comes after it. `Lexeme.Fits` collects these facts and
`Lexeme.read_fits` says that every lexeme that is read has them, whatever the text.
-/

namespace FeatureDoc

/-- Kinds that only a word can have. -/
def Kind.isKeyword : Kind → Bool
  | .feature | .scenario | .outline | .examples | .background | .step _ => true
  | _ => false

theorem Kind.isKeyword_of_ofKeyword? {word : String} {k : Kind}
    (h : Kind.ofKeyword? word = some k) : k.isKeyword = true := by
  unfold Kind.ofKeyword? at h
  split_ifs at h
  · exact Option.some.inj h ▸ rfl
  · exact Option.some.inj h ▸ rfl
  · exact Option.some.inj h ▸ rfl
  · exact Option.some.inj h ▸ rfl
  · exact Option.some.inj h ▸ rfl
  · obtain ⟨_, -, rfl⟩ := Option.map_eq_some_iff.1 h
    rfl

namespace Lexeme

/-- What a lexeme looks like, by its kind; `rest` is the text after it. -/
def Fits (x : Lexeme) (rest : List Char) : Prop :=
  match x.kind with
  | .number => x.literal ≠ [] ∧ ∀ c ∈ x.literal, c.isDigit = true
  | .tag => ∀ c ∈ x.literal, Text.isTagChar c = true
  | .exampleValue => '>' ∉ x.literal
  | .comment => ∀ c ∈ rest.head?, c = '\n'
  | .newline => x.raw.count '\n' = 1
  | .tableData => x.raw.count '\n' = 0 ∧ ∀ c ∈ rest.head?, c = '|' ∨ c = '\n'
  | _ => True

theorem fits_of_isKeyword {x : Lexeme} {rest : List Char} (h : x.kind.isKeyword = true) :
    x.Fits rest := by
  unfold Fits
  cases hk : x.kind <;> simp_all [Kind.isKeyword]

/-- A word is a keyword or free text. -/
theorem kind_word (c : Char) (cs : List Char) :
    (word c cs).kind = .stepBody ∨ (word c cs).kind.isKeyword = true := by
  dsimp only [word]
  split
  · next k hk => exact Or.inr (Kind.isKeyword_of_ofKeyword? hk)
  · exact Or.inl rfl

theorem kind_word_ne {k : Kind} (hbody : k ≠ .stepBody) (hk : k.isKeyword = false) (c : Char)
    (cs : List Char) : (word c cs).kind ≠ k := by
  rintro rfl
  rcases kind_word c cs with h | h
  · exact hbody h
  · rw [h] at hk
    cases hk

theorem word_fits (c : Char) (cs rest : List Char) : (word c cs).Fits rest := by
  dsimp only [word]
  split
  · rename_i k hk
    exact fits_of_isKeyword (Kind.isKeyword_of_ofKeyword? hk)
  · exact trivial

theorem quoted_fits (cs rest : List Char) : (quoted cs).Fits rest := by
  unfold quoted
  split <;> exact trivial

theorem count_newline_takeWhile {p : Char → Bool} (hp : p '\n' = false) (cs : List Char) :
    (cs.takeWhile p).count '\n' = 0 := by
  apply List.count_eq_zero.2
  intro hmem
  have := List.mem_takeWhile_imp hmem
  simp [hp] at this

/-- A comment goes up to the end of the line. -/
theorem comment_fits (cs : List Char) :
    (comment cs).Fits (('#' :: cs).drop (comment cs).raw.length) := by
  have hcs : '#' :: cs = (comment cs).raw ++ cs.dropWhile (· != '\n') := by
    rw [comment, List.cons_append, List.takeWhile_append_dropWhile]
  have hafter := (congrArg (List.drop _) hcs).trans List.drop_left
  have hstop := List.head?_dropWhile_not (· != '\n') cs
  intro c hc
  rw [← hafter, Option.mem_def.1 hc] at hstop
  simpa using hstop

/-- The text after a cell starts with the pipe or the line end at which the cell stops. -/
theorem cell_fits (cs : List Char) :
    (cell cs).Fits (('|' :: cs).drop (cell cs).raw.length) := by
  have hpad : (cs.takeWhile isIndent).count '\n' = 0 := count_newline_takeWhile rfl cs
  have hsplit := List.takeWhile_append_dropWhile (p := isIndent) (l := cs)
  unfold cell
  split
  · exact trivial
  · simp [Fits, hpad]
  · set rest := cs.dropWhile isIndent
    set body := rest.takeWhile fun c => c != '|' && c != '\n'
    have hcount : body.count '\n' = 0 := count_newline_takeWhile rfl rest
    refine ⟨by simp [hpad, hcount], fun c hc => ?_⟩
    have hcs : '|' :: cs = ('|' :: cs.takeWhile isIndent ++ body) ++
        rest.dropWhile fun c => c != '|' && c != '\n' := by
      rw [List.append_assoc, List.takeWhile_append_dropWhile, List.cons_append, hsplit]
    have hafter := (congrArg (List.drop _) hcs).trans List.drop_left
    have hstop := List.head?_dropWhile_not (fun c => c != '|' && c != '\n') rest
    rw [← hafter, hc] at hstop
    simpa [or_iff_not_imp_left] using hstop

/-- **A lexeme looks as its kind says**, with the text after it. -/
theorem read_fits (cs : List Char) : (read cs).Fits (cs.drop (read cs).raw.length) := by
  unfold read
  split
  · exact trivial
  · exact comment_fits _
  · exact trivial
  · exact List.count_singleton_self
  · exact fun c hc => List.mem_takeWhile_imp hc
  · exact quoted_fits _ _
  · exact cell_fits _
  · split
    · intro hmem
      simpa using List.mem_takeWhile_imp hmem
    · exact word_fits _ _ _
  · rename_i c cs _ _ _ _ _ _ _
    split
    · rename_i hd
      exact ⟨by simp [number, hd], fun d hd => List.mem_takeWhile_imp hd⟩
    · exact word_fits _ _ _

end Lexeme

end FeatureDoc
