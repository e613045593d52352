import FeatureDoc.Proofs.Grammar.Document

/-!
# Where line ends and comments belong

Line ends and comments may stand between any two parts of a document, and the grammar often leaves
it open to which part they belong. A reader skips them where it first meets them, so here they go to
the part before them.

* Steps, a description and an entry swallow what comes after them (`steps_mul_trivia`,
  `description_mul_trivia`, `entry_mul_trivia`).
* `entry` is a scenario or an outline that starts with a tag or its keyword; `entries_eq` says that
  the entries of a feature are a loop of it.
* `feature_eq` is the grammar of a feature in which the next token decides every choice.
-/

namespace FeatureDoc.Grammar

open FeatureDoc.Part

/-- Tags that start with a tag, or none. -/
def openTags : Part := (kind .tag * tags).opt

theorem tags_eq_trivia_mul : tags = trivia.star * openTags := by
  ext ts rest
  constructor
  · rintro ⟨mid, hrounds, htail⟩
    rcases Relation.ReflTransGen.cases_head hrounds with rfl | ⟨next, ⟨start, hskip, htag⟩, hmore⟩
    · exact ⟨rest, htail, Or.inr rfl⟩
    · exact ⟨start, hskip, Or.inl ⟨next, htag, mid, hmore, htail⟩⟩
  · rintro ⟨start, hskip, ⟨next, htag, mid, hmore, htail⟩ | rfl⟩
    · exact ⟨mid, star_cons _ ⟨start, hskip, htag⟩ hmore, htail⟩
    · exact ⟨ts, star_nil _ ts, hskip⟩

theorem steps_mul_trivia : steps * trivia.star = steps := by
  rw [steps, plus_eq_star_mul, Part.mul_assoc, Part.mul_assoc, Part.mul_assoc, star_mul_star]

theorem background_mul_trivia : background * trivia.star = background := by
  rw [background, Part.mul_assoc, steps_mul_trivia]

/-- Trivia are a line of a description. -/
theorem isDescription_of_trivia (ts rest : List Token) (h : trivia ts rest) :
    (kind .newline + kind .comment + line IsDescription) ts rest := by
  obtain ⟨t, ht, rfl⟩ := h
  rcases Kind.isTrivia_iff.1 ht with hk | hk
  · exact Or.inl (Or.inl ⟨t, hk, rfl⟩)
  · exact Or.inl (Or.inr ⟨t, hk, rfl⟩)

theorem description_mul_trivia : description * trivia.star = description := by
  ext ts rest
  refine ⟨?_, fun h => ⟨rest, h, star_nil _ rest⟩⟩
  rintro ⟨mid, hdescription, hskip⟩
  exact Relation.ReflTransGen.trans hdescription
    (Relation.ReflTransGen.mono isDescription_of_trivia _ _ hskip)

theorem description_mul_background_mul_trivia :
    description * background.opt * trivia.star = description * background.opt := by
  rw [opt, Part.mul_add, Part.add_mul, Part.mul_assoc, background_mul_trivia, Part.mul_one,
    description_mul_trivia]

/-! ## Entries -/

/-- A scenario or an outline from its keyword on, with the trivia after it. -/
def keyworded : Part :=
  kind .scenario *
    (kind .outline * (heading * (steps * (examples * trivia.star))) + heading * steps)

/-- A scenario or an outline that starts with a tag or its keyword, with the trivia after it. -/
def entry : Part := openTags * keyworded

theorem keyworded_mul_trivia : keyworded * trivia.star = keyworded := by
  simp only [keyworded, Part.mul_assoc, Part.add_mul, star_mul_star, steps_mul_trivia]

theorem entry_mul_trivia : entry * trivia.star = entry := by
  rw [entry, Part.mul_assoc, keyworded_mul_trivia]

theorem scenario_add_outline_mul_trivia :
    (scenario + outline) * trivia.star = trivia.star * entry := by
  rw [Part.add_comm, entry, ← Part.mul_assoc, ← tags_eq_trivia_mul]
  simp only [scenario, outline, keyworded, Part.mul_assoc, Part.add_mul, Part.mul_add,
    steps_mul_trivia]

/-- Trivia between entries go to the entry before. -/
theorem entries_eq : trivia.star * ((scenario + outline) * trivia.star).star =
    trivia.star * entry.star := by
  rw [scenario_add_outline_mul_trivia, star_mul_star_of_absorbs entry_mul_trivia]

/-- **A feature, with every choice left to the next token.** -/
theorem feature_eq : feature =
    tags * (kind .feature * (heading * (description * (background.opt * entry.star)))) := by
  have h : description * (background.opt * (trivia.star * entry.star)) =
      description * (background.opt * entry.star) := by
    rw [← Part.mul_assoc, ← Part.mul_assoc, description_mul_background_mul_trivia, Part.mul_assoc]
  simp only [feature, Part.mul_assoc, entries_eq, h]

end FeatureDoc.Grammar
