import FeatureDoc.Proofs.Token.Stream
import FeatureDoc.Token.Consume
import Mathlib.Logic.Relation

/-!
# Tokens on demand

The readers take a list of tokens. Here is where such a list comes from, if each token is scanned
when the one before it is advanced over: one token is in view, and what is behind it has not been
looked at.

* A `Feed` is the token in view, the place behind it, and a record of what was advanced over.
  Nothing keeps `Feed.advance` from going past the end token, so that it does not happen is
  something to prove.
* `Feed.pending` are the tokens that a feed has to offer, `Feed.Moves` is one step over a token
  that is not the end token, and `Feed.Reaches` and `Feed.Passes` are any number of such steps and
  at least one.
* `Feed.Reaches.passed` and `Feed.Passes.passed` say what such steps record, and
  `Feed.Reaches.unique` that where they lead depends on the pending tokens only.
-/

namespace FeatureDoc

/-- A text whose tokens are read one by one. -/
structure Feed where
  /-- The tokens that were advanced over. -/
  passed : List Token
  /-- The token in view. -/
  next : Token
  /-- The place behind the token in view. -/
  cursor : Cursor
  deriving DecidableEq, Repr

namespace Feed

/-- The start of a text, with its first token in view. -/
def ofString (source : String) : Feed :=
  ⟨[], (Cursor.ofString source).next.1, (Cursor.ofString source).next.2⟩

/-- Advance over the token in view, whichever it is, and read another one. -/
def advance (f : Feed) : Feed := ⟨f.passed ++ [f.next], f.cursor.next.1, f.cursor.next.2⟩

/-- All tokens that were read from the text. -/
def pulled (f : Feed) : List Token := f.passed ++ [f.next]

/-- The tokens from the one in view on, up to and including the first end token. -/
def pending (f : Feed) : List Token :=
  if f.next.kind = .eof then [f.next] else f.next :: f.cursor.tokens

/-- One step over a token that is not the end token. -/
def Moves (f g : Feed) : Prop := f.next.kind ≠ .eof ∧ g = f.advance

/-- Any number of steps, none of them over the end token. -/
def Reaches (f g : Feed) : Prop := Relation.ReflTransGen Moves f g

/-- One or more steps, none of them over the end token. -/
def Passes (f g : Feed) : Prop := Relation.TransGen Moves f g

variable {f g g' : Feed}

/-! ## Pending tokens -/

theorem pending_ofString (source : String) : (ofString source).pending = tokens source := by
  unfold FeatureDoc.tokens Cursor.tokens
  rfl

theorem pending_of_eof (h : f.next.kind = .eof) : f.pending = [f.next] := by
  rw [pending, if_pos h]

theorem pending_of_ne_eof (h : f.next.kind ≠ .eof) : f.pending = f.next :: f.advance.pending := by
  rw [pending, if_neg h, Cursor.tokens]
  rfl

@[simp] theorem peek_pending (f : Feed) : peek f.pending = f.next := by
  unfold pending
  split <;> rfl

/-! ## Steps -/

theorem Moves.length_pending (h : f.Moves g) : f.pending.length = g.pending.length + 1 := by
  obtain ⟨hne, rfl⟩ := h
  rw [pending_of_ne_eof hne, List.length_cons]

namespace Reaches

theorem refl (f : Feed) : f.Reaches f := Relation.ReflTransGen.refl

theorem trans {f₁ f₂ f₃ : Feed} (h : f₁.Reaches f₂) (h' : f₂.Reaches f₃) : f₁.Reaches f₃ :=
  Relation.ReflTransGen.trans h h'

theorem advance (h : f.next.kind ≠ .eof) : f.Reaches f.advance :=
  Relation.ReflTransGen.single ⟨h, rfl⟩

/-- **Steps record what they advance over**: the tokens that are not pending any more, none of
which is the end token. -/
theorem passed (h : f.Reaches g) : ∃ mid, g.passed = f.passed ++ mid ∧
    f.pending = mid ++ g.pending ∧ ∀ t ∈ mid, t.kind ≠ .eof := by
  induction h with
  | refl => exact ⟨[], by simp⟩
  | @tail g g' _ hmove ih =>
    obtain ⟨mid, hpassed, hpending, hmid⟩ := ih
    obtain ⟨hne, rfl⟩ := hmove
    refine ⟨mid ++ [g.next], ?_, ?_, ?_⟩
    · rw [Feed.advance, hpassed, List.append_assoc]
    · rw [hpending, pending_of_ne_eof hne, List.append_assoc, List.singleton_append]
    · simpa [or_imp, forall_and] using ⟨hmid, hne⟩

theorem pending_suffix (h : f.Reaches g) : g.pending <:+ f.pending := by
  obtain ⟨mid, -, hpending, -⟩ := h.passed
  exact ⟨mid, hpending.symm⟩

theorem stream (h : f.Reaches g) (hf : Stream f.pending) : Stream g.pending :=
  hf.of_suffix h.pending_suffix

theorem eq_or_passes (h : f.Reaches g) : f = g ∨ f.Passes g := by
  rcases Relation.reflTransGen_iff_eq_or_transGen.1 h with h | h
  · exact Or.inl h.symm
  · exact Or.inr h

/-- Steps that leave fewer tokens advance over at least one. -/
theorem passes (h : f.Reaches g) (hlt : g.pending.length < f.pending.length) : f.Passes g := by
  rcases h.eq_or_passes with rfl | h
  · exact absurd hlt (Nat.lt_irrefl _)
  · exact h

/-- Where steps lead depends on the tokens that they leave. -/
theorem unique (h : f.Reaches g) (h' : f.Reaches g') (heq : g.pending = g'.pending) : g = g' := by
  induction h using Relation.ReflTransGen.head_induction_on with
  | refl =>
    rcases h'.eq_or_passes with h | h
    · exact h
    · obtain ⟨f₁, hmove, hrest⟩ := Relation.TransGen.head'_iff.1 h
      have hlt := hmove.length_pending
      have hle := (pending_suffix hrest).length_le
      rw [heq] at hlt
      omega
  | @head f f₁ hmove hrest ih =>
    rcases h'.eq_or_passes with rfl | h
    · have hlt := hmove.length_pending
      have hle := (pending_suffix hrest).length_le
      rw [heq] at hle
      omega
    · obtain ⟨f₂, hmove', hrest'⟩ := Relation.TransGen.head'_iff.1 h
      obtain ⟨-, rfl⟩ := hmove
      obtain ⟨-, rfl⟩ := hmove'
      exact ih hrest'

end Reaches

/-- One or more steps record one or more tokens. -/
theorem Passes.passed (h : f.Passes g) : ∃ mid, mid ≠ [] ∧ g.passed = f.passed ++ mid ∧
    ∀ t ∈ mid, t.kind ≠ .eof := by
  obtain ⟨f₁, ⟨hne, rfl⟩, hrest⟩ := Relation.TransGen.head'_iff.1 h
  obtain ⟨mid, hpassed, -, hmid⟩ := Reaches.passed hrest
  refine ⟨f.next :: mid, List.cons_ne_nil _ _, ?_, List.forall_mem_cons.2 ⟨hne, hmid⟩⟩
  rw [hpassed, Feed.advance, List.append_assoc, List.singleton_append]

/-- What was read from a text is a beginning of its tokens, as long as the end token was not
advanced over. -/
theorem Reaches.pulled_prefix {source : String} (h : (ofString source).Reaches f) :
    f.pulled <+: tokens source := by
  obtain ⟨mid, hpassed, hpending, -⟩ := h.passed
  have hnext : ∃ rest, f.pending = f.next :: rest := by
    by_cases heof : f.next.kind = .eof
    · exact ⟨[], pending_of_eof heof⟩
    · exact ⟨_, pending_of_ne_eof heof⟩
  obtain ⟨rest, hrest⟩ := hnext
  rw [pending_ofString, hrest] at hpending
  refine ⟨rest, ?_⟩
  rw [pulled, hpassed, hpending, List.append_assoc]
  rfl

end Feed

end FeatureDoc
