import FeatureDoc.Proofs.Pull.Feed

/-!
# Readers that ask for tokens

A reader that asks for its tokens one by one looks at the token in view and advances over it. What
it reads in a loop it reads for as long as the token in view allows, and nothing in its definition
says that this comes to an end.

* `Pull α` is such a reader; where it gives nothing at all, it runs on for ever. `Pull.peek` and
  `Pull.advance` are the ways to get at tokens.
* A `Loop` goes on as long as the token in view is of such a kind, and `Loop.run` runs it.
  `Loop.Ends` says that a run ends and that every round of it advances; such a run gives something
  (`Loop.Ends.exists_run`).
* `Pull.Meets m f p` says that `m` comes to an end on the feed `f`, with the outcome of `p` and the
  tokens that `p` leaves, and that it never advances over the end token. `Pull.Follows m C R` says
  so for every feed with a token in `C` in view and for what the reader `R` makes of its tokens.
* The laws for a value, an error, `peek`, `advance`, `bind` and a choice carry this from the parts
  of a reader to the whole. `Loop.sound_of_invariant` is the one for loops, and `Loop.sound` its
  case for loops that may start anywhere.
-/

namespace FeatureDoc

/-- A reader that asks for its tokens. -/
abbrev Pull := ExceptT ParseError (StateT Feed Option)

namespace Pull

variable {α β : Type}

/-- What a reader makes of a feed, and the feed that it leaves. -/
def on (m : Pull α) (f : Feed) : Option (Except ParseError α × Feed) := m.run.run f

/-- Look at the token in view. -/
def peek : Pull Token := do return (← get).next

/-- Advance over the token in view, which is the value. -/
def advance : Pull Token := modifyGet fun f => (f.next, f.advance)

/-- Refuse the token in view. -/
def fail (error : Token → ParseError) : Pull α := do throw (error (← peek))

end Pull

/-- What is done again and again, from the value so far to the next one. -/
structure Loop (σ : Type) where
  /-- Which tokens in view ask for another round. -/
  goesOn : Kind → Bool
  /-- One round. -/
  round : σ → Pull σ

/-- Do round after round. -/
def Loop.run {σ : Type} (l : Loop σ) (s : σ) : Pull σ := do
  if l.goesOn (← Pull.peek).kind then l |>.run (← l.round s) else return s
partial_fixpoint

/-- A run of a loop ends, and every round of it advances over at least one token, and never over
the end token. -/
inductive Loop.Ends {σ : Type} (l : Loop σ) : σ → Feed → Prop
  /-- No other round. -/
  | leave {s : σ} {f : Feed} : l.goesOn f.next.kind = false → Ends l s f
  /-- A round that fails. -/
  | fail {s : σ} {f g : Feed} {e : ParseError} : l.goesOn f.next.kind = true →
    (l.round s).on f = some (.error e, g) → f.Passes g → Ends l s f
  /-- A round and what comes after it. -/
  | round {s s' : σ} {f g : Feed} : l.goesOn f.next.kind = true →
    (l.round s).on f = some (.ok s', g) → f.Passes g → Ends l s' g → Ends l s f

/-- The value or the error that a reader of lists gives. -/
def Parsed.outcome {α : Type} : Parsed α → Except ParseError α
  | .ok (a, _) => .ok a
  | .error failure => .error failure.error

/-- A value or an error that does not come from the tokens. -/
def Parsed.ofExcept {α : Type} (x : Except ParseError α) (ts : List Token) : Parsed α :=
  match x with
  | .ok a => .ok (a, ts)
  | .error e => .error ⟨e, ts⟩

theorem Parsed.rest_ofExcept {α : Type} (x : Except ParseError α) (ts : List Token) :
    (Parsed.ofExcept x ts).rest = ts := by
  cases x <;> rfl

theorem Parsed.rest_ofExcept_suffix {α : Type} (x : Except ParseError α) (ts : List Token) :
    (Parsed.ofExcept x ts).rest <:+ ts := by
  cases x <;> exact List.suffix_rfl

namespace Pull

variable {α β : Type} {m : Pull α} {k : α → Pull β} {f g : Feed}

theorem on_peek (f : Feed) : peek.on f = some (.ok f.next, f) := rfl

theorem on_bind_of_ok {a : α} (h : m.on f = some (.ok a, g)) : (m >>= k).on f = (k a).on g := by
  change Option.bind (m.on f) _ = _
  rw [h]
  rfl

theorem on_bind_of_error {e : ParseError} (h : m.on f = some (.error e, g)) :
    (m >>= k).on f = some (.error e, g) := by
  change Option.bind (m.on f) _ = _
  rw [h]
  rfl

/-- On `f`, `m` comes to an end as `p` says, without advancing over the end token. -/
def Meets (m : Pull α) (f : Feed) (p : Parsed α) : Prop :=
  ∃ g, f.Reaches g ∧ g.pending = p.rest ∧ m.on f = some (p.outcome, g)

namespace Meets

theorem pure (a : α) (f : Feed) : (Pure.pure a : Pull α).Meets f (.ok (a, f.pending)) :=
  ⟨f, .refl f, rfl, rfl⟩

theorem bind {p : Parsed α} {S : α → List Token → Parsed β} (hm : m.Meets f p)
    (hk : ∀ a g, f.Reaches g → p = .ok (a, g.pending) → (k a).Meets g (S a g.pending)) :
    (m >>= k).Meets f (p.andThen S) := by
  obtain ⟨g, hg, hrest, hon⟩ := hm
  match p with
  | .ok (a, rest) =>
    obtain rfl : g.pending = rest := hrest
    obtain ⟨g', hg', hrest', hon'⟩ := hk a g hg rfl
    exact ⟨g', hg.trans hg', hrest', (on_bind_of_ok hon).trans hon'⟩
  | .error failure => exact ⟨g, hg, hrest, on_bind_of_error hon⟩

/-- Where the first reader gives a value, the second one goes on with the tokens that it leaves. -/
theorem bind_of_ok {a : α} {ts : List Token} {q : Parsed β} (hm : m.Meets f (.ok (a, ts)))
    (hk : ∀ g, f.Reaches g → g.pending = ts → (k a).Meets g q) : (m >>= k).Meets f q := by
  refine bind (S := fun _ _ => q) hm fun a' g hg hok => ?_
  obtain ⟨rfl, hrest⟩ := Prod.mk.inj (Except.ok.inj hok)
  exact hk g hg hrest.symm

theorem peek_bind {k : Token → Pull β} {p : Parsed β} (h : (k f.next).Meets f p) :
    (peek >>= k).Meets f p := h

end Meets

/-- Wherever a token in `C` is in view, `m` does what `R` does with the tokens of the feed. -/
def Follows (m : Pull α) (C : Kind → Prop) (R : List Token → Parsed α) : Prop :=
  ∀ f : Feed, Stream f.pending → C f.next.kind → m.Meets f (R f.pending)

namespace Follows

variable {R : List Token → Parsed α} {S : α → List Token → Parsed β} {C D : Kind → Prop}

theorem pure (a : α) : (Pure.pure a : Pull α).Follows C fun ts => .ok (a, ts) :=
  fun f _ _ => .pure a f

theorem fail (error : Token → ParseError) :
    (fail error : Pull α).Follows C fun ts => .error ⟨error (FeatureDoc.peek ts), ts⟩ := by
  intro f _ _
  dsimp only
  rw [Feed.peek_pending]
  exact ⟨f, .refl f, rfl, rfl⟩

theorem lift (x : Except ParseError α) :
    (monadLift x : Pull α).Follows C (Parsed.ofExcept x) := by
  intro f _ _
  refine ⟨f, .refl f, (Parsed.rest_ofExcept x _).symm, ?_⟩
  cases x <;> rfl

theorem peek : peek.Follows C fun ts => .ok (FeatureDoc.peek ts, ts) := by
  intro f _ _
  dsimp only
  rw [Feed.peek_pending]
  exact ⟨f, .refl f, rfl, rfl⟩

/-- Where the token in view is not the end token, it may be advanced over. -/
theorem advance (hC : ¬ C .eof) :
    advance.Follows C fun ts => .ok (FeatureDoc.peek ts, ts.tail) := by
  intro f _ hf
  have hne : f.next.kind ≠ .eof := fun h => hC (h ▸ hf)
  refine ⟨f.advance, .advance hne, ?_, ?_⟩
  · rw [Feed.pending_of_ne_eof hne]
    rfl
  · dsimp only
    rw [Feed.peek_pending]
    rfl

theorem mono (h : m.Follows D R) (hCD : ∀ k, C k → D k) : m.Follows C R :=
  fun f hf hC => h f hf (hCD _ hC)

theorem congr {R' : List Token → Parsed α} (h : m.Follows C R) (hR : ∀ ts, R ts = R' ts) :
    m.Follows C R' := fun f hf hC => hR f.pending ▸ h f hf hC

theorem bind (hm : m.Follows C R) (hk : ∀ a, (k a).Follows (fun _ => True) (S a)) :
    (m >>= k).Follows C fun ts => (R ts).andThen S :=
  fun f hf hC => (hm f hf hC).bind fun a g hg _ => hk a g (hg.stream hf) trivial

theorem map (hm : m.Follows C R) (h : α → β) :
    (h <$> m).Follows C fun ts => (R ts).andThen fun a rest => .ok (h a, rest) := by
  rw [map_eq_pure_bind]
  exact hm.bind fun a => pure (h a)

/-- A choice that the token in view decides. -/
theorem ite {m' : Pull α} {R' : List Token → Parsed α} [DecidablePred D] (hm : m.Follows D R)
    (hm' : m'.Follows (fun k => ¬ D k) R') :
    (Pull.peek >>= fun t => if D t.kind then m else m').Follows C
      fun ts => if D (FeatureDoc.peek ts).kind then R ts else R' ts := by
  intro f hf _
  apply Meets.peek_bind
  dsimp only
  rw [Feed.peek_pending]
  split
  · next h => exact hm f hf h
  · next h => exact hm' f hf h

end Follows

end Pull

/-! ## Loops -/

namespace Loop

variable {σ : Type} {l : Loop σ} {s : σ} {f : Feed}

theorem run_eq (l : Loop σ) (s : σ) : l.run s =
    Pull.peek >>= fun t => if l.goesOn t.kind then l.round s >>= l.run else pure s := by
  rw [run]

/-- A loop whose rounds advance comes to an end. -/
theorem Ends.exists_run (h : l.Ends s f) : ∃ x, (l.run s).on f = some x := by
  induction h with
  | @leave s f hk =>
    refine ⟨(.ok s, f), ?_⟩
    rw [run_eq, Pull.on_bind_of_ok (Pull.on_peek f), hk]
    rfl
  | @fail s f g e hk hround _ =>
    refine ⟨(.error e, g), ?_⟩
    rw [run_eq, Pull.on_bind_of_ok (Pull.on_peek f), if_pos hk, Pull.on_bind_of_error hround]
  | @round s s' f g hk hround _ _ ih =>
    rw [run_eq, Pull.on_bind_of_ok (Pull.on_peek f), if_pos hk, Pull.on_bind_of_ok hround]
    exact ih

/-- A loop ends if its first round leaves fewer tokens and the loop ends from there on. -/
theorem Ends.of_meets {p : Parsed σ} (hk : l.goesOn f.next.kind = true)
    (hround : (l.round s).Meets f p) (hlt : p.rest.length < f.pending.length)
    (hnext : ∀ s' (g : Feed), p = .ok (s', g.pending) → l.Ends s' g) : l.Ends s f := by
  obtain ⟨g, hg, hrest, hon⟩ := hround
  have hpasses : f.Passes g := hg.passes (by rwa [hrest])
  match p with
  | .ok (s', rest) =>
    obtain rfl : g.pending = rest := hrest
    exact .round hk hon hpasses (hnext s' g rfl)
  | .error failure => exact .fail hk hon hpasses

/-- Every run of a loop that starts where `I` holds ends, and does what `G` does. -/
def Sound (l : Loop σ) (I : List Token → Prop) (G : σ → List Token → Parsed σ) : Prop :=
  ∀ s (f : Feed), I f.pending → l.Ends s f ∧ (l.run s).Meets f (G s f.pending)

/-- **The law for loops.** Each round does what `R` does and keeps `I`, and leaves fewer tokens
even if it fails; `G` does round after round of `R`. -/
theorem sound_of_invariant {I : List Token → Prop} {R G : σ → List Token → Parsed σ}
    (hround : ∀ s (f : Feed), I f.pending → l.goesOn f.next.kind = true →
      (l.round s).Meets f (R s f.pending))
    (hlt : ∀ s ts, l.goesOn (peek ts).kind = true → (R s ts).rest.length < ts.length)
    (hI : ∀ s ts, I ts → l.goesOn (peek ts).kind = true → I (R s ts).rest)
    (hG : ∀ s ts, I ts → G s ts = if l.goesOn (peek ts).kind then (R s ts).andThen G
      else .ok (s, ts)) : l.Sound I G := by
  intro s f hf
  -- each round leaves fewer pending tokens, whatever its outcome
  induction hn : f.pending.length using Nat.strong_induction_on generalizing s f with
  | _ n ih =>
    rw [hG s f.pending hf, Feed.peek_pending, run_eq]
    by_cases hk : l.goesOn f.next.kind = true
    · rw [if_pos hk]
      have hkp : l.goesOn (peek f.pending).kind = true := by rwa [Feed.peek_pending]
      have hless := hlt s f.pending hkp
      have hnext : ∀ s' (g : Feed), R s f.pending = .ok (s', g.pending) →
          l.Ends s' g ∧ (l.run s').Meets g (G s' g.pending) := by
        intro s' g hok
        have hg := hI s f.pending hf hkp
        rw [hok] at hless hg
        exact ih g.pending.length (hn ▸ hless) s' g hg rfl
      have hmeets := hround s f hf hk
      constructor
      · exact .of_meets hk hmeets hless fun s' g hok => (hnext s' g hok).1
      · apply Pull.Meets.peek_bind
        rw [if_pos hk]
        exact hmeets.bind fun s' g _ hok => (hnext s' g hok).2
    · rw [if_neg hk]
      refine ⟨.leave (by simpa using hk), Pull.Meets.peek_bind ?_⟩
      rw [if_neg hk]
      exact .pure s f

/-- The law for loops that may start anywhere in a text. -/
theorem sound {R G : σ → List Token → Parsed σ}
    (hround : ∀ s, (l.round s).Follows (l.goesOn · = true) (R s)) (heof : l.goesOn .eof = false)
    (hrest : ∀ s t ts, l.goesOn t.kind = true → (R s (t :: ts)).rest <:+ ts)
    (hG : ∀ s ts, G s ts = if l.goesOn (peek ts).kind then (R s ts).andThen G
      else .ok (s, ts)) : l.Sound Stream G := by
  have hsuffix : ∀ s ts, l.goesOn (peek ts).kind = true → ∃ t ts', ts = t :: ts' ∧
      (R s ts).rest <:+ ts' := by
    intro s ts hk
    rcases ts with _ | ⟨t, ts⟩
    · exact absurd hk (by simp [peek, heof])
    · exact ⟨t, ts, rfl, hrest s t ts hk⟩
  refine sound_of_invariant (fun s f hf hk => hround s f hf hk) (fun s ts hk => ?_)
    (fun s ts hts hk => ?_) fun s ts _ => hG s ts
  · obtain ⟨t, ts', rfl, hs⟩ := hsuffix s ts hk
    exact Nat.lt_succ_of_le hs.length_le
  · obtain ⟨t, ts', rfl, hs⟩ := hsuffix s ts hk
    exact hts.tail.of_suffix hs

theorem Sound.follows {G : σ → List Token → Parsed σ} (h : l.Sound Stream G) (s : σ)
    {C : Kind → Prop} : (l.run s).Follows C (G s) := fun f hf _ => (h s f hf).2

end Loop

end FeatureDoc
