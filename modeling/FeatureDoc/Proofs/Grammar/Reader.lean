import FeatureDoc.Proofs.Grammar.Part
import FeatureDoc.Proofs.Token.Stream

/-!
# Readers that follow a grammar

A reader looks one token ahead and never goes back. `Reads R p next` says what this means for a part
`p` of the grammar, when a token in `next` comes after it:

* what `R` accepts is a `p` (`Reads.sound`), and it accepts every `p` (`Reads.complete`);
* the outcome depends on the tokens that were consumed and on the one after them, and on nothing
  else (`Reads.ahead`, `Reads.ahead_error`);
* what was consumed is the beginning of a `p` that can be finished, after a success (`Reads.closes`)
  and, if the error names the token that was found, after a failure (`Reads.stuck`).

The laws for `take`, `andThen`, a choice and a loop carry this from the parts of a reader to the
whole, so a reader is checked rule by rule.
-/

namespace FeatureDoc

/-- The kind and the line of the token that an error says was found. -/
def ParseError.found? : ParseError → Option (Kind × Nat)
  | .unexpectedToken _ found _ line => some (found, line)
  | .noSteps _ found line => some (found, line)
  | .afterFeature found line => some (found, line)
  | .reservedDelimiter _ => none
  | .raggedRow _ _ _ => none

instance : Inhabited Token := ⟨⟨.eof, "", 1⟩⟩

theorem peek_append_cons (xs : List Token) (t : Token) (m m' : List Token) :
    peek (xs ++ t :: m) = peek (xs ++ t :: m') := by
  cases xs <;> rfl

theorem exists_append_of_suffix {xs mid rest : List Token} (hmid : mid <:+ xs ++ rest)
    (hrest : rest <:+ mid) : ∃ x₁ x₂, xs = x₁ ++ x₂ ∧ mid = x₂ ++ rest := by
  obtain ⟨x₂, rfl⟩ := hrest
  obtain ⟨x₁, h⟩ := hmid
  rw [← List.append_assoc] at h
  exact ⟨x₁, x₂, (List.append_cancel_right h).symm, rfl⟩

/-- `R` reads a `p` that is followed by a token in `next`, one token at a time. -/
structure Reads {α : Type} (R : List Token → Parsed α) (p : Part) (next : Kind → Prop) : Prop where
  /-- There is a `p`. -/
  inhabited : p.Completes []
  /-- What is left is an end of the tokens. -/
  rest_suffix : ∀ ts, (R ts).rest <:+ ts
  /-- What is accepted is a `p`. -/
  sound : ∀ {xs rest a}, (∀ t ∈ xs, t.Spelled) → R (xs ++ rest) = .ok (a, rest) →
    p (xs ++ rest) rest
  /-- What is accepted can be finished so that anything may follow. -/
  closes : ∀ {xs rest a}, (∀ t ∈ xs, t.Spelled) → R (xs ++ rest) = .ok (a, rest) → p.Completes xs
  /-- Of the tokens that are left, only the first one matters. -/
  ahead : ∀ {xs t m a}, R (xs ++ t :: m) = .ok (a, t :: m) →
    ∀ m', R (xs ++ t :: m') = .ok (a, t :: m')
  /-- Every `p` is accepted. -/
  complete : ∀ {ts rest}, p ts rest → next (peek rest).kind → ∃ a, R ts = .ok (a, rest)
  /-- The token that an error names is the first one that is left. -/
  names : ∀ {ts e rest x}, Stream ts → R ts = .error ⟨e, rest⟩ → e.found? = some x →
    x = ((peek rest).kind, (peek rest).line)
  /-- What comes before that token is the beginning of a `p`. -/
  stuck : ∀ {xs e rest}, Stream (xs ++ rest) → R (xs ++ rest) = .error ⟨e, rest⟩ →
    e.found?.isSome → p.Completes xs
  /-- What comes after that token does not matter. -/
  ahead_error : ∀ {xs t m e}, Stream (xs ++ t :: m) → R (xs ++ t :: m) = .error ⟨e, t :: m⟩ →
    e.found?.isSome → ∀ m', R (xs ++ t :: m') = .error ⟨e, t :: m'⟩

namespace Reads

variable {α β : Type} {p q : Part} {next next' : Kind → Prop}

section

variable {R : List Token → Parsed α}

theorem ahead_append (hR : Reads R p next) {xs zs m : List Token} {t : Token} {a : α}
    (h : R (xs ++ (zs ++ t :: m)) = .ok (a, zs ++ t :: m)) (m' : List Token) :
    R (xs ++ (zs ++ t :: m')) = .ok (a, zs ++ t :: m') := by
  cases zs with
  | nil => exact hR.ahead h m'
  | cons z zs => exact hR.ahead h (zs ++ t :: m')

/-- A `p` that was read stays one while the `q` after it is finished. -/
theorem completes_mul (hR : Reads R p next) {xs zs rest : List Token} {a : α}
    (hxs : ∀ t ∈ xs, t.Spelled) (h : R (xs ++ (zs ++ rest)) = .ok (a, zs ++ rest))
    (hq : q.Completes zs) : (p * q).Completes (xs ++ zs) := by
  cases zs with
  | nil =>
    rw [List.append_nil]
    exact (hR.closes hxs h).mul hq
  | cons z zs =>
    exact Part.Completes.mul_of_forall (fun rest' => hR.sound hxs (hR.ahead h (zs ++ rest'))) hq

theorem mono (hR : Reads R p next) (h : ∀ k, next' k → next k) : Reads R p next' :=
  { hR with complete := fun hp hk => hR.complete hp (h _ hk) }

/-- Another part that is the same in front of a token in `next`. -/
theorem change (hR : Reads R p next) (hpq : ∀ ts rest, p ts rest → q ts rest)
    (hqp : ∀ ts rest, q ts rest → next (peek rest).kind → p ts rest) : Reads R q next :=
  { hR with
    inhabited := hR.inhabited.mono hpq
    sound := fun hxs h => hpq _ _ (hR.sound hxs h)
    closes := fun hxs h => (hR.closes hxs h).mono hpq
    complete := fun hq hk => hR.complete (hqp _ _ hq hk) hk
    stuck := fun hts h he => (hR.stuck hts h he).mono hpq }

end

/-! ## Two readers in a row -/

section AndThen

variable {R : List Token → Parsed α} {S : α → List Token → Parsed β}

theorem andThen_ok_split (hR : ∀ ts, (R ts).rest <:+ ts) (hS : ∀ a ts, (S a ts).rest <:+ ts)
    {xs rest : List Token} {b : β} (h : (R (xs ++ rest)).andThen S = .ok (b, rest)) :
    ∃ a x₁ x₂, xs = x₁ ++ x₂ ∧ R (x₁ ++ (x₂ ++ rest)) = .ok (a, x₂ ++ rest) ∧
      S a (x₂ ++ rest) = .ok (b, rest) := by
  obtain ⟨a, mid, hRa, hSa⟩ := Parsed.andThen_eq_ok.1 h
  have hmid := hR (xs ++ rest)
  have hrest := hS a mid
  rw [hRa] at hmid
  rw [hSa] at hrest
  obtain ⟨x₁, x₂, rfl, rfl⟩ := exists_append_of_suffix hmid hrest
  rw [List.append_assoc] at hRa
  exact ⟨a, x₁, x₂, rfl, hRa, hSa⟩

theorem andThen_error_split (hR : ∀ ts, (R ts).rest <:+ ts) (hS : ∀ a ts, (S a ts).rest <:+ ts)
    {xs rest : List Token} {e : ParseError} (h : (R (xs ++ rest)).andThen S = .error ⟨e, rest⟩) :
    R (xs ++ rest) = .error ⟨e, rest⟩ ∨
      ∃ a x₁ x₂, xs = x₁ ++ x₂ ∧ R (x₁ ++ (x₂ ++ rest)) = .ok (a, x₂ ++ rest) ∧
        S a (x₂ ++ rest) = .error ⟨e, rest⟩ := by
  rcases Parsed.andThen_eq_error.1 h with h | ⟨a, mid, hRa, hSa⟩
  · exact Or.inl h
  · have hmid := hR (xs ++ rest)
    have hrest := hS a mid
    rw [hRa] at hmid
    rw [hSa] at hrest
    obtain ⟨x₁, x₂, rfl, rfl⟩ := exists_append_of_suffix hmid hrest
    rw [List.append_assoc] at hRa
    exact Or.inr ⟨a, x₁, x₂, rfl, hRa, hSa⟩

/-- **A reader that goes on with another one reads both parts**, provided that the second part
begins as the first one expects. -/
theorem andThen [Nonempty α] (hR : Reads R p next) (hS : ∀ a, Reads (S a) q next')
    (hopen : q.Opens next' next) : Reads (fun ts => (R ts).andThen S) (p * q) next' where
  inhabited := hR.inhabited.mul (hS (Classical.arbitrary α)).inhabited
  rest_suffix := fun ts =>
    Parsed.rest_andThen_suffix (hR.rest_suffix ts) fun a => (hS a).rest_suffix
  sound := by
    intro xs rest b hxs h
    obtain ⟨a, x₁, x₂, rfl, hRa, hSa⟩ :=
      andThen_ok_split hR.rest_suffix (fun a => (hS a).rest_suffix) h
    rw [List.forall_mem_append] at hxs
    rw [List.append_assoc]
    exact ⟨x₂ ++ rest, hR.sound hxs.1 hRa, (hS a).sound hxs.2 hSa⟩
  closes := by
    intro xs rest b hxs h
    obtain ⟨a, x₁, x₂, rfl, hRa, hSa⟩ :=
      andThen_ok_split hR.rest_suffix (fun a => (hS a).rest_suffix) h
    rw [List.forall_mem_append] at hxs
    exact hR.completes_mul hxs.1 hRa ((hS a).closes hxs.2 hSa)
  ahead := by
    intro xs t m b h m'
    obtain ⟨a, x₁, x₂, rfl, hRa, hSa⟩ :=
      andThen_ok_split hR.rest_suffix (fun a => (hS a).rest_suffix) h
    rw [List.append_assoc]
    exact Parsed.andThen_eq_ok.2 ⟨a, _, hR.ahead_append hRa m', (hS a).ahead hSa m'⟩
  complete := by
    rintro ts rest ⟨mid, hp, hq⟩ hk
    obtain ⟨a, hRa⟩ := hR.complete hp (hopen _ _ hq hk)
    obtain ⟨b, hSb⟩ := (hS a).complete hq hk
    exact ⟨b, Parsed.andThen_eq_ok.2 ⟨a, mid, hRa, hSb⟩⟩
  names := by
    intro ts e rest x hts h hx
    rcases Parsed.andThen_eq_error.1 h with h | ⟨a, mid, hRa, hSa⟩
    · exact hR.names hts h hx
    · have hmid := Parsed.suffix_of_eq_ok (hR.rest_suffix ts) hRa
      exact (hS a).names (hts.of_suffix hmid) hSa hx
  stuck := by
    intro xs e rest hts h he
    rcases andThen_error_split hR.rest_suffix (fun a => (hS a).rest_suffix) h with
      h | ⟨a, x₁, x₂, rfl, hRa, hSa⟩
    · exact (hR.stuck hts h he).mul (hS (Classical.arbitrary α)).inhabited
    · rw [List.append_assoc] at hts
      have hx₁ : ∀ t ∈ x₁, t.Spelled := fun t ht => hts.spelled t (List.mem_append_left _ ht)
      exact hR.completes_mul hx₁ hRa
        ((hS a).stuck (hts.of_suffix (List.suffix_append x₁ _)) hSa he)
  ahead_error := by
    intro xs t m e hts h he m'
    apply Parsed.andThen_eq_error.2
    rcases andThen_error_split hR.rest_suffix (fun a => (hS a).rest_suffix) h with
      h | ⟨a, x₁, x₂, rfl, hRa, hSa⟩
    · exact Or.inl (hR.ahead_error hts h he m')
    · rw [List.append_assoc] at hts ⊢
      have hmid := hts.of_suffix (List.suffix_append x₁ _)
      exact Or.inr ⟨a, _, hR.ahead_append hRa m', (hS a).ahead_error hmid hSa he m'⟩

end AndThen

/-- Giving a value without looking at the tokens reads nothing. -/
theorem pure (a : α) : Reads (fun ts => .ok (a, ts)) 1 next where
  inhabited := Part.Completes.one
  rest_suffix := fun _ => List.suffix_rfl
  sound := by
    rintro xs rest _ - h
    simp only [Except.ok.injEq, Prod.mk.injEq] at h
    exact h.2
  closes := by
    rintro xs rest _ - h
    simp only [Except.ok.injEq, Prod.mk.injEq, List.append_left_eq_self] at h
    exact h.2 ▸ Part.Completes.one
  ahead := by
    intro xs t m _ h m'
    simp only [Except.ok.injEq, Prod.mk.injEq, List.append_left_eq_self] at h
    simp [h.1, h.2]
  complete := by
    rintro ts _ rfl -
    exact ⟨a, rfl⟩
  names := nofun
  stuck := nofun
  ahead_error := nofun

/-- Changing the value that was read changes nothing else. -/
theorem map [Nonempty α] {R : List Token → Parsed α} (hR : Reads R p next) (f : α → β) :
    Reads (fun ts => (R ts).andThen fun a rest => .ok (f a, rest)) p next := by
  have hf : ∀ a, Reads (fun rest => .ok (f a, rest)) 1 next := fun a => pure (f a)
  have h := hR.andThen hf (Part.Opens.one fun _ hk => hk)
  rwa [Part.mul_one] at h

/-! ## Choices -/

/-- **A choice that the next token decides reads either part.** -/
theorem ite {R S : List Token → Parsed α} {C : Kind → Prop} [DecidablePred C] (hR : Reads R p next)
    (hS : Reads S q next) (hp : p.Opens next C) (hq : q.Opens next fun k => ¬ C k) :
    Reads (fun ts => if C (peek ts).kind then R ts else S ts) (p + q) next where
  inhabited := hR.inhabited.add_left
  rest_suffix := by
    intro ts
    split
    · exact hR.rest_suffix ts
    · exact hS.rest_suffix ts
  sound := by
    intro xs rest a hxs h
    split at h
    · exact Or.inl (hR.sound hxs h)
    · exact Or.inr (hS.sound hxs h)
  closes := by
    intro xs rest a hxs h
    split at h
    · exact (hR.closes hxs h).add_left
    · exact (hS.closes hxs h).add_right
  ahead := by
    intro xs t m a h m'
    rw [peek_append_cons xs t m' m]
    split at h
    · next hC => exact (if_pos hC).trans (hR.ahead h m')
    · next hC => exact (if_neg hC).trans (hS.ahead h m')
  complete := by
    rintro ts rest (h | h) hk
    · obtain ⟨a, ha⟩ := hR.complete h hk
      exact ⟨a, (if_pos (hp _ _ h hk)).trans ha⟩
    · obtain ⟨a, ha⟩ := hS.complete h hk
      exact ⟨a, (if_neg (hq _ _ h hk)).trans ha⟩
  names := by
    intro ts e rest x hts h hx
    split at h
    · exact hR.names hts h hx
    · exact hS.names hts h hx
  stuck := by
    intro xs e rest hts h he
    split at h
    · exact (hR.stuck hts h he).add_left
    · exact (hS.stuck hts h he).add_right
  ahead_error := by
    intro xs t m e hts h he m'
    rw [peek_append_cons xs t m' m]
    split at h
    · next hC => exact (if_pos hC).trans (hR.ahead_error hts h he m')
    · next hC => exact (if_neg hC).trans (hS.ahead_error hts h he m')

/-- A part that the next token announces, or nothing. -/
theorem opt {R : List Token → Parsed α} {C : Kind → Prop} [DecidablePred C] (hR : Reads R p next)
    (a : α) (hp : p.Opens next C) (hnext : ∀ k, next k → ¬ C k) :
    Reads (fun ts => if C (peek ts).kind then R ts else .ok (a, ts)) p.opt next :=
  hR.ite (pure a) hp (Part.Opens.one hnext)

/-- A part that the next token announces; any other token is refused. -/
theorem guard {R : List Token → Parsed α} {C : Kind → Prop} [DecidablePred C] (hR : Reads R p next)
    (hp : p.Opens next C) {error : Token → ParseError}
    (herror : ∀ t, (error t).found? = some (t.kind, t.line)) :
    Reads (fun ts => if C (peek ts).kind then R ts else .error ⟨error (peek ts), ts⟩) p next where
  inhabited := hR.inhabited
  rest_suffix := by
    intro ts
    split
    · exact hR.rest_suffix ts
    · exact List.suffix_rfl
  sound := by
    intro xs rest a hxs h
    split at h
    · exact hR.sound hxs h
    · cases h
  closes := by
    intro xs rest a hxs h
    split at h
    · exact hR.closes hxs h
    · cases h
  ahead := by
    intro xs t m a h m'
    rw [peek_append_cons xs t m' m]
    split at h
    · next hC => exact (if_pos hC).trans (hR.ahead h m')
    · cases h
  complete := by
    intro ts rest h hk
    obtain ⟨a, ha⟩ := hR.complete h hk
    exact ⟨a, (if_pos (hp _ _ h hk)).trans ha⟩
  names := by
    intro ts e rest x hts h hx
    split at h
    · exact hR.names hts h hx
    · cases h
      exact (Option.some.inj ((herror _).symm.trans hx)).symm
  stuck := by
    intro xs e rest hts h he
    split at h
    · exact hR.stuck hts h he
    · have hxs : xs = [] := List.append_left_eq_self.1 (congrArg Failure.rest (Except.error.inj h))
      exact hxs ▸ hR.inhabited
  ahead_error := by
    intro xs t m e hts h he m'
    split at h
    · next hC =>
      rw [peek_append_cons xs t m' m]
      exact (if_pos hC).trans (hR.ahead_error hts h he m')
    · next hC =>
      have hf := Except.error.inj h
      have hxs : xs = [] := List.append_left_eq_self.1 (congrArg Failure.rest hf)
      subst hxs
      obtain rfl : error t = e := congrArg Failure.error hf
      exact if_neg hC

end Reads

/-! ## One token -/

/-- Consume a token of a kind in `C`. -/
def take (C : Kind → Prop) [DecidablePred C] (error : Token → ParseError) (ts : List Token) :
    Parsed Token :=
  if C (peek ts).kind then .ok (peek ts, ts.tail) else .error ⟨error (peek ts), ts⟩

section Take

variable {C : Kind → Prop} [DecidablePred C] {error : Token → ParseError}

theorem take_eq_ok (hC : ¬ C .eof) {ts rest : List Token} {t : Token} :
    take C error ts = .ok (t, rest) ↔ C t.kind ∧ ts = t :: rest := by
  unfold take
  rcases ts with _ | ⟨s, ts⟩
  · simp [peek, hC]
  · by_cases hs : C s.kind
    · simp only [peek, List.headD_cons, hs, if_true, List.tail_cons, Except.ok.injEq,
        Prod.mk.injEq, List.cons.injEq]
      exact ⟨fun h => ⟨h.1 ▸ hs, h⟩, And.right⟩
    · simp only [peek, List.headD_cons, hs, if_false, reduceCtorEq, List.cons.injEq, false_iff]
      rintro ⟨ht, rfl, -⟩
      exact hs ht

theorem take_eq_error {ts : List Token} {failure : Failure} :
    take C error ts = .error failure ↔
      ¬ C (peek ts).kind ∧ failure = ⟨error (peek ts), ts⟩ := by
  unfold take
  split
  · next h => simp [h]
  · next h => simp [h, eq_comm]

theorem rest_take_suffix (ts : List Token) : (take C error ts).rest <:+ ts := by
  unfold take
  split
  · exact List.tail_suffix ts
  · exact List.suffix_rfl

/-- **Consuming one token reads it**, and whatever comes after it may follow. -/
theorem Reads.take {next : Kind → Prop} {k : Kind} (hk : C k) (hC : ¬ C .eof)
    (herror : ∀ t, (error t).found? = some (t.kind, t.line)) :
    Reads (take C error) (Part.token C) next where
  inhabited := Part.Completes.token hk
  rest_suffix := rest_take_suffix
  sound := by
    rintro xs rest t - h
    exact ⟨t, (take_eq_ok hC).1 h⟩
  closes := by
    rintro xs rest t - h
    obtain ⟨ht, hts⟩ := (take_eq_ok hC).1 h
    obtain rfl : xs = [t] := List.append_cancel_right hts
    exact ⟨[], fun rest => ⟨t, ht, rfl⟩⟩
  ahead := by
    intro xs s m t h m'
    obtain ⟨ht, hts⟩ := (take_eq_ok hC).1 h
    obtain rfl : xs = [t] := List.append_cancel_right hts
    exact (take_eq_ok hC).2 ⟨ht, rfl⟩
  complete := by
    rintro _ rest ⟨t, ht, rfl⟩ -
    exact ⟨t, (take_eq_ok hC).2 ⟨ht, rfl⟩⟩
  names := by
    intro ts e rest x _ h hx
    obtain ⟨-, hf⟩ := take_eq_error.1 h
    cases hf
    exact (Option.some.inj ((herror _).symm.trans hx)).symm
  stuck := by
    intro xs e rest hts h he
    obtain ⟨-, hf⟩ := take_eq_error.1 h
    have hxs : xs = [] := List.append_left_eq_self.1 (congrArg Failure.rest hf).symm
    exact hxs ▸ Part.Completes.token hk
  ahead_error := by
    intro xs t m e _ h _ m'
    obtain ⟨hn, hf⟩ := take_eq_error.1 h
    have hxs : xs = [] := List.append_left_eq_self.1 (congrArg Failure.rest hf).symm
    subst hxs
    exact take_eq_error.2 ⟨hn, congrArg (Failure.mk · (t :: m')) (congrArg Failure.error hf)⟩

end Take

/-! ## Loops -/

/-- `L` repeats `R` as long as a token in `C` comes next. The value of a round is put in front of
those of the later rounds by `f`; `z` is the value of no rounds. -/
structure Repeats {β γ : Type} (L : List Token → Parsed γ) (R : List Token → Parsed β)
    (f : β → γ → γ) (z : γ) (C : Kind → Prop) : Prop where
  /-- The loop goes on with another round. -/
  more : ∀ {ts}, C (peek ts).kind →
    L ts = (R ts).andThen fun b rest => (L rest).andThen fun c rest => .ok (f b c, rest)
  /-- The loop ends. -/
  done : ∀ {ts}, ¬ C (peek ts).kind → L ts = .ok (z, ts)
  /-- Every round consumes something. -/
  rest_lt : ∀ {ts b rest}, C (peek ts).kind → R ts = .ok (b, rest) → rest.length < ts.length

namespace Repeats

variable {β γ : Type} {L : List Token → Parsed γ} {R : List Token → Parsed β} {f : β → γ → γ}
  {z : γ} {C : Kind → Prop} {ts rest : List Token}

theorem eq_ok (h : Repeats L R f z C) {c : γ} (hL : L ts = .ok (c, rest)) :
    (¬ C (peek ts).kind ∧ c = z ∧ ts = rest) ∨
      ∃ b c' mid, C (peek ts).kind ∧ R ts = .ok (b, mid) ∧ L mid = .ok (c', rest) ∧
        c = f b c' := by
  by_cases hC : C (peek ts).kind
  · rw [h.more hC] at hL
    obtain ⟨b, mid, hb, hL⟩ := Parsed.andThen_eq_ok.1 hL
    obtain ⟨c', rest', hc, heq⟩ := Parsed.andThen_eq_ok.1 hL
    simp only [Except.ok.injEq, Prod.mk.injEq] at heq
    obtain ⟨rfl, rfl⟩ := heq
    exact Or.inr ⟨b, c', mid, hC, hb, hc, rfl⟩
  · rw [h.done hC] at hL
    simp only [Except.ok.injEq, Prod.mk.injEq] at hL
    exact Or.inl ⟨hC, hL.1.symm, hL.2⟩

theorem eq_error (h : Repeats L R f z C) {failure : Failure} (hL : L ts = .error failure) :
    C (peek ts).kind ∧ (R ts = .error failure ∨
      ∃ b mid, R ts = .ok (b, mid) ∧ L mid = .error failure) := by
  by_cases hC : C (peek ts).kind
  · refine ⟨hC, ?_⟩
    rw [h.more hC] at hL
    rcases Parsed.andThen_eq_error.1 hL with hL | ⟨b, mid, hb, hL⟩
    · exact Or.inl hL
    · rcases Parsed.andThen_eq_error.1 hL with hL | ⟨_, _, _, hL⟩
      · exact Or.inr ⟨b, mid, hb, hL⟩
      · cases hL
  · rw [h.done hC] at hL
    cases hL

/-- Another round in front of a loop that ends well. -/
theorem cons_ok (h : Repeats L R f z C) {b : β} {c : γ} {mid : List Token}
    (hC : C (peek ts).kind) (hR : R ts = .ok (b, mid)) (hL : L mid = .ok (c, rest)) :
    L ts = .ok (f b c, rest) := by
  rw [h.more hC]
  exact Parsed.andThen_eq_ok.2 ⟨b, mid, hR, Parsed.andThen_eq_ok.2 ⟨c, rest, hL, rfl⟩⟩

/-- Induction on the rounds of a loop. -/
theorem induction (h : Repeats L R f z C) {motive : List Token → Prop}
    (step : ∀ ts, (∀ b mid, C (peek ts).kind → R ts = .ok (b, mid) → motive mid) → motive ts)
    (ts : List Token) : motive ts := by
  induction hn : ts.length using Nat.strong_induction_on generalizing ts with
  | _ n ih =>
    refine step ts fun b mid hC hR => ih mid.length ?_ mid rfl
    exact hn ▸ h.rest_lt hC hR

/-- What holds of every round holds of all that a loop collects. -/
theorem forall_mem {L : List Token → Parsed (List β)} (h : Repeats L R List.cons [] C)
    {p : β → Prop} (hR : ∀ {ts b rest}, R ts = .ok (b, rest) → p b) {bs : List β}
    (hL : L ts = .ok (bs, rest)) : ∀ b ∈ bs, p b := by
  induction ts using h.induction generalizing bs with
  | step ts ih =>
    rcases h.eq_ok hL with ⟨-, rfl, -⟩ | ⟨b, bs', mid, hk, hb, hmid, rfl⟩
    · simp
    · exact List.forall_mem_cons.2 ⟨hR hb, ih b mid hk hb hmid⟩

/-- Collecting the values of the rounds in order comes to the same. -/
theorem append {L : List Token → Parsed (List β)} [DecidablePred C]
    (h : Repeats L R List.cons [] C) (bs : List β) (ts : List Token) :
    ((L ts).andThen fun more rest => .ok (bs ++ more, rest)) =
      if C (peek ts).kind then
        ((R ts).andThen fun b rest => .ok (bs ++ [b], rest)).andThen fun bs rest =>
          (L rest).andThen fun more rest => .ok (bs ++ more, rest)
      else .ok (bs, ts) := by
  split
  · next hC =>
    rw [h.more hC, Parsed.andThen_assoc, Parsed.andThen_assoc]
    congr 1
    funext b rest
    simp [Parsed.andThen_assoc, Parsed.ok_andThen]
  · next hC => simp [h.done hC, Parsed.ok_andThen]

theorem rest_suffix (h : Repeats L R f z C) (hR : ∀ ts, (R ts).rest <:+ ts) (ts : List Token) :
    (L ts).rest <:+ ts := by
  induction ts using h.induction with
  | step ts ih =>
    by_cases hC : C (peek ts).kind
    · rw [h.more hC]
      match hts : R ts with
      | .error failure =>
        have := hR ts
        rw [hts] at this
        exact this
      | .ok (b, mid) =>
        have hmid := hR ts
        rw [hts] at hmid
        change ((L mid).andThen _).rest <:+ ts
        exact Parsed.rest_andThen_suffix ((ih b mid hC hts).trans hmid) fun _ _ => List.suffix_rfl
    · rw [h.done hC]
      exact List.suffix_rfl

/-- The tokens of the first round and those of the others. -/
theorem split (h : Repeats L R f z C) (hR : ∀ ts, (R ts).rest <:+ ts) {xs mid : List Token} {b : β}
    (hts : R (xs ++ rest) = .ok (b, mid)) (hL : (L mid).rest = rest) :
    ∃ x₁ x₂, xs = x₁ ++ x₂ ∧ mid = x₂ ++ rest := by
  have hmid := hR (xs ++ rest)
  rw [hts] at hmid
  exact exists_append_of_suffix hmid (hL ▸ h.rest_suffix hR mid)

end Repeats

section Loop

variable {β γ : Type} {L : List Token → Parsed γ} {R : List Token → Parsed β} {f : β → γ → γ}
  {z : γ} {C next next' : Kind → Prop} {p : Part}

/-- What a loop consumed before its last token can be finished, if every round can. -/
theorem Reads.completes_star (hR : Reads R p next) {xs zs rest : List Token} {b : β}
    (hxs : ∀ t ∈ xs, t.Spelled) (h : R (xs ++ (zs ++ rest)) = .ok (b, zs ++ rest))
    (hzs : p.star.Completes zs) : p.star.Completes (xs ++ zs) := by
  apply (hR.completes_mul hxs h hzs).mono
  rintro ts rest ⟨mid, hp, hs⟩
  exact p.star_cons hp hs

/-! Each law for loops is an induction on the rounds: the first round, by the law for `R`, and the
others. -/

namespace Repeats

theorem sound (h : Repeats L R f z C) (hR : Reads R p next) {xs rest : List Token} {c : γ}
    (hxs : ∀ t ∈ xs, t.Spelled) (hL : L (xs ++ rest) = .ok (c, rest)) :
    p.star (xs ++ rest) rest := by
  generalize hts : xs ++ rest = ts at hL ⊢
  induction ts using h.induction generalizing xs c with
  | step ts ih =>
    subst hts
    rcases h.eq_ok hL with ⟨-, -, heq⟩ | ⟨b, c', mid, hk, hb, hmid, -⟩
    · rw [heq]
      exact p.star_nil rest
    · obtain ⟨x₁, x₂, rfl, rfl⟩ := h.split hR.rest_suffix hb (by rw [hmid]; rfl)
      rw [List.forall_mem_append] at hxs
      rw [List.append_assoc] at hb ⊢
      exact p.star_cons (hR.sound hxs.1 hb)
        (ih b _ hk (by rw [List.append_assoc]; exact hb) hxs.2 rfl hmid)

theorem closes (h : Repeats L R f z C) (hR : Reads R p next) {xs rest : List Token} {c : γ}
    (hxs : ∀ t ∈ xs, t.Spelled) (hL : L (xs ++ rest) = .ok (c, rest)) : p.star.Completes xs := by
  generalize hts : xs ++ rest = ts at hL
  induction ts using h.induction generalizing xs c with
  | step ts ih =>
    subst hts
    rcases h.eq_ok hL with ⟨-, -, heq⟩ | ⟨b, c', mid, hk, hb, hmid, -⟩
    · exact List.append_left_eq_self.1 heq ▸ Part.Completes.star_nil p
    · obtain ⟨x₁, x₂, rfl, rfl⟩ := h.split hR.rest_suffix hb (by rw [hmid]; rfl)
      rw [List.forall_mem_append] at hxs
      have hrest := ih b _ hk hb hxs.2 rfl hmid
      rw [List.append_assoc] at hb
      exact hR.completes_star hxs.1 hb hrest

theorem ahead (h : Repeats L R f z C) (hR : Reads R p next) {xs m : List Token} {t : Token} {c : γ}
    (hL : L (xs ++ t :: m) = .ok (c, t :: m)) (m' : List Token) :
    L (xs ++ t :: m') = .ok (c, t :: m') := by
  generalize hts : xs ++ t :: m = ts at hL
  induction ts using h.induction generalizing xs c with
  | step ts ih =>
    subst hts
    rcases h.eq_ok hL with ⟨hk, rfl, heq⟩ | ⟨b, c', mid, hk, hb, hmid, rfl⟩
    · rw [peek_append_cons xs t m m'] at hk
      rw [h.done hk, List.append_left_eq_self.1 heq, List.nil_append]
    · obtain ⟨x₁, x₂, rfl, rfl⟩ := h.split hR.rest_suffix hb (by rw [hmid]; rfl)
      have hrest := ih b _ hk hb rfl hmid
      rw [peek_append_cons _ t m m'] at hk
      rw [List.append_assoc] at hb hk ⊢
      exact h.cons_ok hk (hR.ahead_append hb m') hrest

/-- Here the induction is on the repetition: the condition holds in front of every `p`, and after
each of them comes another one or the end of the loop. -/
theorem complete (h : Repeats L R f z C) (hR : Reads R p next) (hp : p.Opens (fun _ => True) C)
    (hnext : ∀ k, C k ∨ next' k → next k) (hC : ∀ k, next' k → ¬ C k) {ts rest : List Token}
    (hs : p.star ts rest) (hk : next' (peek rest).kind) : ∃ c, L ts = .ok (c, rest) := by
  have hopen : p.star.Opens next' fun k => C k ∨ next' k :=
    Part.Opens.star (fun ts rest hts htrue => Or.inl (hp ts rest hts htrue)) fun _ => Or.inr
  induction hs using Relation.ReflTransGen.head_induction_on with
  | refl => exact ⟨z, h.done (hC _ hk)⟩
  | head hm hs ih =>
    obtain ⟨c, hc⟩ := ih
    obtain ⟨b, hb⟩ := hR.complete hm (hnext _ (hopen _ _ hs hk))
    exact ⟨f b c, h.cons_ok (hp _ _ hm trivial) hb hc⟩

theorem names (h : Repeats L R f z C) (hR : Reads R p next) {ts rest : List Token} {e : ParseError}
    {x : Kind × Nat} (hts : Stream ts) (hL : L ts = .error ⟨e, rest⟩) (hx : e.found? = some x) :
    x = ((peek rest).kind, (peek rest).line) := by
  induction ts using h.induction with
  | step ts ih =>
    obtain ⟨hk, hL | ⟨b, mid, hb, hL⟩⟩ := h.eq_error hL
    · exact hR.names hts hL hx
    · have hmid := Parsed.suffix_of_eq_ok (hR.rest_suffix ts) hb
      exact ih b mid hk hb (hts.of_suffix hmid) hL

theorem stuck (h : Repeats L R f z C) (hR : Reads R p next) {xs rest : List Token} {e : ParseError}
    (hts : Stream (xs ++ rest)) (hL : L (xs ++ rest) = .error ⟨e, rest⟩) (he : e.found?.isSome) :
    p.star.Completes xs := by
  generalize heq : xs ++ rest = ts at hL
  induction ts using h.induction generalizing xs with
  | step ts ih =>
    subst heq
    obtain ⟨hk, hL | ⟨b, mid, hb, hL⟩⟩ := h.eq_error hL
    · exact (hR.stuck hts hL he).star
    · obtain ⟨x₁, x₂, rfl, rfl⟩ := h.split hR.rest_suffix hb (by rw [hL]; rfl)
      have hx₁ : ∀ t ∈ x₁, t.Spelled := fun t ht =>
        hts.spelled t (List.mem_append_left _ (List.mem_append_left _ ht))
      rw [List.append_assoc] at hts
      have hrest := ih b _ hk hb (hts.of_suffix (List.suffix_append x₁ _)) rfl hL
      rw [List.append_assoc] at hb
      exact hR.completes_star hx₁ hb hrest

theorem ahead_error (h : Repeats L R f z C) (hR : Reads R p next) {xs m : List Token} {t : Token}
    {e : ParseError} (hts : Stream (xs ++ t :: m)) (hL : L (xs ++ t :: m) = .error ⟨e, t :: m⟩)
    (he : e.found?.isSome) (m' : List Token) : L (xs ++ t :: m') = .error ⟨e, t :: m'⟩ := by
  generalize heq : xs ++ t :: m = ts at hL
  induction ts using h.induction generalizing xs with
  | step ts ih =>
    subst heq
    obtain ⟨hk, hL | ⟨b, mid, hb, hL⟩⟩ := h.eq_error hL
    · rw [peek_append_cons _ t m m'] at hk
      rw [h.more hk]
      exact Parsed.andThen_eq_error.2 (Or.inl (hR.ahead_error hts hL he m'))
    · obtain ⟨x₁, x₂, rfl, rfl⟩ := h.split hR.rest_suffix hb (by rw [hL]; rfl)
      rw [List.append_assoc] at hts
      have hrest := ih b _ hk hb (hts.of_suffix (List.suffix_append x₁ _)) rfl hL
      rw [peek_append_cons _ t m m'] at hk
      rw [h.more hk]
      rw [List.append_assoc] at hb ⊢
      exact Parsed.andThen_eq_error.2 (Or.inr ⟨b, _, hR.ahead_append hb m',
        Parsed.andThen_eq_error.2 (Or.inl hrest)⟩)

end Repeats

/-- **A loop reads a repetition**, provided that its condition tells another round from what comes
after the loop. -/
theorem Reads.loop (h : Repeats L R f z C) (hR : Reads R p next) (hp : p.Opens (fun _ => True) C)
    (hnext : ∀ k, C k ∨ next' k → next k) (hC : ∀ k, next' k → ¬ C k) :
    Reads L p.star next' where
  inhabited := Part.Completes.star_nil p
  rest_suffix := h.rest_suffix hR.rest_suffix
  sound := h.sound hR
  closes := h.closes hR
  ahead := h.ahead hR
  complete := h.complete hR hp hnext hC
  names := h.names hR
  stuck := h.stuck hR
  ahead_error := h.ahead_error hR

end Loop

end FeatureDoc
