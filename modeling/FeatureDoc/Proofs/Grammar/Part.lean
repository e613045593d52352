import FeatureDoc.Token.Consume
import Mathlib.Logic.Relation

/-!
# Parts of a document

A grammar describes parts of a list of tokens. A part is the relation between the tokens before it
and the tokens after it, so a rule may speak about the token that comes next: a line goes up to the
next line end, wherever that is.

* `p * q` is `p` followed by `q`, `p + q` is a choice, `1` is nothing, `Part.star`, `Part.plus` and
  `Part.opt` are repetition and option.
* `p.Completes xs` says that `xs` is the beginning of a `p` that can be finished so that anything
  may come after it.
* `p.Opens D C` says that a `p` begins with a token in `C`, provided that the token after it is in
  `D`; the proviso matters for a `p` that may be empty.
* `p.Within C` says that a `p` consists of tokens in `C`.
-/

namespace FeatureDoc

/-- A part of a document: `p ts rest` says that `ts` is a `p` followed by `rest`. -/
def Part := List Token → List Token → Prop

namespace Part

instance : Mul Part := ⟨fun p q ts rest => ∃ mid, p ts mid ∧ q mid rest⟩

instance : Add Part := ⟨fun p q ts rest => p ts rest ∨ q ts rest⟩

instance : One Part := ⟨fun ts rest => ts = rest⟩

/-- Any number of `p`, one after the other. -/
def star (p : Part) : Part := Relation.ReflTransGen p

/-- One or more `p`. -/
def plus (p : Part) : Part := p * p.star

/-- A `p` or nothing. -/
def opt (p : Part) : Part := p + 1

/-- One token, of a kind in `C`. -/
def token (C : Kind → Prop) : Part := fun ts rest => ∃ t, C t.kind ∧ ts = t :: rest

/-- One token of a given kind. -/
def kind (k : Kind) : Part := token (· = k)

variable {p q : Part} {ts rest xs : List Token}

@[ext] protected theorem ext (h : ∀ ts rest, p ts rest ↔ q ts rest) : p = q := by
  funext ts rest
  exact propext (h ts rest)

protected theorem mul_one (p : Part) : p * 1 = p := by
  ext ts rest
  refine ⟨fun ⟨mid, hp, hmid⟩ => ?_, fun hp => ⟨rest, hp, rfl⟩⟩
  cases hmid
  exact hp

protected theorem mul_assoc (p q r : Part) : p * q * r = p * (q * r) := by
  ext ts rest
  constructor
  · rintro ⟨m₂, ⟨m₁, hp, hq⟩, hr⟩
    exact ⟨m₁, hp, m₂, hq, hr⟩
  · rintro ⟨m₁, hp, m₂, hq, hr⟩
    exact ⟨m₂, ⟨m₁, hp, hq⟩, hr⟩

protected theorem mul_add (p q r : Part) : p * (q + r) = p * q + p * r := by
  ext ts rest
  constructor
  · rintro ⟨mid, hp, hq | hr⟩
    · exact Or.inl ⟨mid, hp, hq⟩
    · exact Or.inr ⟨mid, hp, hr⟩
  · rintro (⟨mid, hp, hq⟩ | ⟨mid, hp, hr⟩)
    · exact ⟨mid, hp, Or.inl hq⟩
    · exact ⟨mid, hp, Or.inr hr⟩

protected theorem add_mul (p q r : Part) : (p + q) * r = p * r + q * r := by
  ext ts rest
  constructor
  · rintro ⟨mid, hp | hq, hr⟩
    · exact Or.inl ⟨mid, hp, hr⟩
    · exact Or.inr ⟨mid, hq, hr⟩
  · rintro (⟨mid, hp, hr⟩ | ⟨mid, hq, hr⟩)
    · exact ⟨mid, Or.inl hp, hr⟩
    · exact ⟨mid, Or.inr hq, hr⟩

protected theorem add_comm (p q : Part) : p + q = q + p := by
  ext ts rest
  exact or_comm

theorem star_cons (p : Part) {mid : List Token} (h : p ts mid) (hs : p.star mid rest) :
    p.star ts rest := Relation.ReflTransGen.head h hs

theorem star_nil (p : Part) (ts : List Token) : p.star ts ts := Relation.ReflTransGen.refl

theorem star_mul_star (p : Part) : p.star * p.star = p.star := by
  ext ts rest
  refine ⟨?_, fun h => ⟨ts, p.star_nil ts, h⟩⟩
  rintro ⟨mid, hfirst, hsecond⟩
  exact Relation.ReflTransGen.trans hfirst hsecond

theorem plus_eq_star_mul (p : Part) : p.plus = p.star * p := by
  ext ts rest
  constructor
  · rintro ⟨mid, hp, hs⟩
    exact Relation.TransGen.tail'_iff.1 (Relation.TransGen.head'_iff.2 ⟨mid, hp, hs⟩)
  · rintro ⟨mid, hs, hp⟩
    exact Relation.TransGen.head'_iff.1 (Relation.TransGen.tail'_iff.2 ⟨mid, hs, hp⟩)

/-- What may come between two rounds of a loop can be left to the end of each round. -/
theorem star_mul_star_of_absorbs {s : Part} (h : p * s.star = p) :
    s.star * (s.star * p).star = s.star * p.star := by
  ext ts rest
  constructor
  · rintro ⟨mid, hskip, hrounds⟩
    induction hrounds using Relation.ReflTransGen.head_induction_on generalizing ts with
    | refl => exact ⟨rest, hskip, p.star_nil rest⟩
    | @head mid next hround _ ih =>
      obtain ⟨start, hmore, hp⟩ := hround
      obtain ⟨after, hafter, hrest⟩ := ih next (s.star_nil next)
      have hlong : p start after := by
        rw [← h]
        exact ⟨next, hp, hafter⟩
      exact ⟨start, Relation.ReflTransGen.trans hskip hmore, p.star_cons hlong hrest⟩
  · rintro ⟨mid, hskip, hrounds⟩
    refine ⟨mid, hskip, Relation.ReflTransGen.mono ?_ _ _ hrounds⟩
    exact fun start next hp => ⟨start, s.star_nil start, hp⟩

/-! ## Beginnings that can be finished -/

/-- `xs` can be made into a `p`, whatever comes after it. -/
def Completes (p : Part) (xs : List Token) : Prop := ∃ ys, ∀ rest, p (xs ++ ys ++ rest) rest

namespace Completes

theorem one : (1 : Part).Completes [] := ⟨[], fun _ => rfl⟩

theorem token {C : Kind → Prop} {k : Kind} (h : C k) : (token C).Completes [] :=
  ⟨[⟨k, "", 1⟩], fun _ => ⟨⟨k, "", 1⟩, h, rfl⟩⟩

theorem mono (h : p.Completes xs) (hpq : ∀ ts rest, p ts rest → q ts rest) : q.Completes xs := by
  obtain ⟨ys, hys⟩ := h
  exact ⟨ys, fun rest => hpq _ _ (hys rest)⟩

theorem mul (hp : p.Completes xs) (hq : q.Completes []) : (p * q).Completes xs := by
  obtain ⟨ys, hys⟩ := hp
  obtain ⟨zs, hzs⟩ := hq
  refine ⟨ys ++ zs, fun rest => ⟨zs ++ rest, ?_, hzs rest⟩⟩
  simpa only [List.append_assoc] using hys (zs ++ rest)

theorem add_left (hp : p.Completes xs) : (p + q).Completes xs := hp.mono fun _ _ => Or.inl

theorem add_right (hq : q.Completes xs) : (p + q).Completes xs := hq.mono fun _ _ => Or.inr

theorem star_nil (p : Part) : p.star.Completes [] := ⟨[], fun rest => p.star_nil rest⟩

theorem star (hp : p.Completes xs) : p.star.Completes xs :=
  hp.mono fun _ rest h => p.star_cons h (p.star_nil rest)

/-- What was read of `p` stays as it is while `q` is finished: enough that `p` is found in front of
every list that begins like the rest. -/
theorem mul_of_forall {zs : List Token} (hp : ∀ rest, p (xs ++ (zs ++ rest)) (zs ++ rest))
    (hq : q.Completes zs) : (p * q).Completes (xs ++ zs) := by
  obtain ⟨ys, hys⟩ := hq
  refine ⟨ys, fun rest => ⟨zs ++ ys ++ rest, ?_, hys rest⟩⟩
  simpa only [List.append_assoc] using hp (ys ++ rest)

end Completes

/-! ## First tokens -/

/-- A `p` begins with a token in `C`, provided that the token after it is in `D`. -/
def Opens (p : Part) (D C : Kind → Prop) : Prop :=
  ∀ ts rest, p ts rest → D (peek rest).kind → C (peek ts).kind

namespace Opens

variable {B C D : Kind → Prop}

theorem mono (hp : p.Opens D B) (h : ∀ k, B k → C k) : p.Opens D C :=
  fun ts rest hts hD => h _ (hp ts rest hts hD)

theorem token (h : ∀ k, B k → C k) : (token B).Opens D C := by
  rintro _ _ ⟨t, ht, rfl⟩ -
  exact h t.kind ht

theorem kind {k : Kind} (h : C k) : (kind k).Opens D C :=
  Opens.token fun _ hk => hk ▸ h

theorem kind_self (k : Kind) : (Part.kind k).Opens D (· = k) := Opens.kind rfl

theorem one (h : ∀ k, D k → C k) : (1 : Part).Opens D C := by
  rintro _ _ rfl hD
  exact h _ hD

theorem mul (hp : p.Opens B C) (hq : q.Opens D B) : (p * q).Opens D C := by
  rintro _ _ ⟨mid, hm, hr⟩ hD
  exact hp _ _ hm (hq _ _ hr hD)

theorem add (hp : p.Opens D C) (hq : q.Opens D C) : (p + q).Opens D C := by
  rintro _ _ (h | h) hD
  · exact hp _ _ h hD
  · exact hq _ _ h hD

/-- Where nothing is asked of the token after it, the part is not empty and its first token
decides. -/
theorem mul_left (hp : p.Opens (fun _ => True) C) : (p * q).Opens D C := by
  rintro _ _ ⟨mid, hm, -⟩ -
  exact hp _ _ hm trivial

theorem star (hp : p.Opens (fun _ => True) C) (h : ∀ k, D k → C k) : p.star.Opens D C := by
  intro ts rest hs hD
  induction hs using Relation.ReflTransGen.head_induction_on with
  | refl => exact h _ hD
  | head hm _ _ => exact hp _ _ hm trivial

end Opens

/-! ## Tokens of a part -/

/-- A `p` consists of tokens in `C`. -/
def Within (p : Part) (C : Kind → Prop) : Prop :=
  ∀ ts rest, p ts rest → ∃ xs, ts = xs ++ rest ∧ ∀ t ∈ xs, C t.kind

namespace Within

variable {B C : Kind → Prop}

theorem token (h : ∀ k, B k → C k) : (token B).Within C := by
  rintro _ rest ⟨t, ht, rfl⟩
  refine ⟨[t], rfl, fun s hs => ?_⟩
  rw [List.mem_singleton.1 hs]
  exact h _ ht

theorem kind {k : Kind} (h : C k) : (kind k).Within C := Within.token fun _ hk => hk ▸ h

theorem one : (1 : Part).Within C := by
  rintro ts _ rfl
  exact ⟨[], rfl, by simp⟩

theorem mul (hp : p.Within C) (hq : q.Within C) : (p * q).Within C := by
  rintro ts rest ⟨mid, hm, hr⟩
  obtain ⟨xs, rfl, hxs⟩ := hp _ _ hm
  obtain ⟨ys, rfl, hys⟩ := hq _ _ hr
  exact ⟨xs ++ ys, (List.append_assoc xs ys rest).symm, List.forall_mem_append.2 ⟨hxs, hys⟩⟩

theorem add (hp : p.Within C) (hq : q.Within C) : (p + q).Within C := by
  rintro ts rest (h | h)
  · exact hp _ _ h
  · exact hq _ _ h

theorem star (hp : p.Within C) : p.star.Within C := by
  intro ts rest hs
  induction hs using Relation.ReflTransGen.head_induction_on with
  | refl => exact Within.one _ _ rfl
  | head hm _ ih =>
    obtain ⟨xs, rfl, hxs⟩ := hp _ _ hm
    obtain ⟨ys, rfl, hys⟩ := ih
    exact ⟨xs ++ ys, (List.append_assoc xs ys rest).symm, List.forall_mem_append.2 ⟨hxs, hys⟩⟩

end Within

end Part

end FeatureDoc
