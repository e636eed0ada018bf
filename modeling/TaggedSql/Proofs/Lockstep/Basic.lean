import TaggedSql.Proofs.Grammar.Parts
import TaggedSql.Proofs.Grammar.Running

/-!
# Two runs in lockstep

Two runs of the grammar stay side by side if their tokens look alike to every rule. What being side
by side means is left open: a `Lockstep` is any relation of streams and arenas that taking a token
and adding a node preserve. Whatever it is, the second run then takes as many tokens as the first,
adds corresponding nodes, and fails when the first does.

* `Lockstep`: what corresponds in two runs, and the laws that the grammar relies on;
* `Lockstep.Follows`: a rule of the second run follows one of the first, from streams with fewer
  than so many tokens on;
* `Follows.bind`, `Follows.iterate`: following one rule after the other, and step after step.

Between two levels of nesting at least one token is taken, so the bound on the tokens ahead shrinks
from level to level; this is what limits the depth.
-/

namespace TaggedSql

namespace Kind

/-- Whether a statement ends before a token of the kind: a semicolon, or the end of the source. -/
def closes : Kind → Bool
  | .symbol .semicolon | .endOfInput => true
  | _ => false

/-- Two kinds are alike if no rule inside a statement tells them apart. -/
def Alike (k l : Kind) : Prop := k = l ∨ k.closes = true ∧ l.closes = true

/-- Whether some rule looks for the kind behind the token at the front. -/
def isSought : Kind → Bool
  | .word _ | .leastMagnitude | .symbol .leftParen | .symbol .dot | .symbol .star => true
  | _ => false

/-- Two kinds are alike from afar if no rule tells them apart behind the token at the front. -/
def AlikeAhead (k l : Kind) : Prop := k = l ∨ k.isSought = false ∧ l.isSought = false

theorem closes_iff {k : Kind} : k.closes = true ↔ k = .symbol .semicolon ∨ k = .endOfInput := by
  constructor
  · intro h
    unfold closes at h
    split at h
    next => exact .inl rfl
    next => exact .inr rfl
    next => cases h
  · rintro (rfl | rfl) <;> rfl

theorem isSought_of_closes {k : Kind} (h : k.closes = true) : k.isSought = false := by
  rcases closes_iff.1 h with rfl | rfl <;> rfl

variable {k l : Kind}

theorem Alike.refl (k : Kind) : k.Alike k := .inl rfl

theorem Alike.closes_eq (h : k.Alike l) : k.closes = l.closes := by
  rcases h with rfl | ⟨hk, hl⟩
  · rfl
  · rw [hk, hl]

theorem Alike.eq_of_open (h : k.Alike l) (hk : k.closes = false) : k = l := by
  rcases h with rfl | ⟨hk', _⟩
  · rfl
  · rw [hk] at hk'
    cases hk'

/-- A test that treats a semicolon as the end of the source gives the same for alike kinds. -/
theorem Alike.test {γ : Type} (h : k.Alike l) (test : Kind → γ)
    (htest : test (.symbol .semicolon) = test .endOfInput) : test k = test l := by
  have hclosed : ∀ m : Kind, m.closes = true → test m = test .endOfInput := by
    intro m hm
    rcases closes_iff.1 hm with rfl | rfl
    · exact htest
    · rfl
  rcases h with rfl | ⟨hk, hl⟩
  · rfl
  · rw [hclosed k hk, hclosed l hl]

theorem Alike.ahead (h : k.Alike l) : k.AlikeAhead l :=
  h.imp_right fun h => ⟨isSought_of_closes h.1, isSought_of_closes h.2⟩

theorem AlikeAhead.beq_eq (h : k.AlikeAhead l) {m : Kind} (hm : m.isSought = true) :
    (k == m) = (l == m) := by
  have hne : ∀ k : Kind, k.isSought = false → (k == m) = false := by
    intro k hk
    rw [beq_eq_false_iff_ne]
    rintro rfl
    rw [hm] at hk
    cases hk
  rcases h with rfl | ⟨hk, hl⟩
  · rfl
  · rw [hne k hk, hne l hl]

theorem isSought_of_isNegatable (h : k.isNegatable = true) : k.isSought = true := by
  unfold isNegatable at h
  split at h <;> first | rfl | cases h

theorem AlikeAhead.eq_of_isNegatable (h : k.AlikeAhead l) (hk : k.isNegatable = true) : k = l := by
  rcases h with rfl | ⟨hk', _⟩
  · rfl
  · rw [isSought_of_isNegatable hk] at hk'
    cases hk'

theorem AlikeAhead.isNegatable_eq (h : k.AlikeAhead l) : k.isNegatable = l.isNegatable := by
  have hplain : ∀ k : Kind, k.isSought = false → k.isNegatable = false := by
    intro k hk
    rw [Bool.eq_false_iff]
    intro h
    rw [isSought_of_isNegatable h] at hk
    cases hk
  rcases h with rfl | ⟨hk, hl⟩
  · rfl
  · rw [hplain k hk, hplain l hl]

end Kind

/-- Two nodes that are no lists and differ at most in corresponding spans. -/
inductive Node.Matches (span : Span → Span → Prop) : Node → Node → Prop where
  | tag (t : Tag) : Matches span (.tag t) (.tag t)
  | integer (n : Int64) : Matches span (.integer n) (.integer n)
  | float (x : Binary64) : Matches span (.float x) (.float x)
  | name {a b : Span} (h : span a b) : Matches span (.name a) (.name b)
  | string {a b : Span} (h : span a b) : Matches span (.string a) (.string b)
  | blob {a b : Span} (h : span a b) : Matches span (.blob a) (.blob b)

/-- What two runs meet where they go on: tokens that correspond, or misspelled ones. The first run may
fail in ways that excuse the second one from following. -/
inductive Stream.Meet (stream : Stream → Stream → Prop) (excused : Failure → Prop)
    (failure : Failure → Failure → Prop) (s t : Stream) : Prop
  | goOn (h : stream s t) (hs : ∀ p, s.current.kind ≠ .problem p)
      (ht : ∀ p, t.current.kind ≠ .problem p)
  | excused {p : Problem} (hs : s.current.kind = .problem p) (h : excused (.lexical p s.current))
  | failure {p q : Problem} (hs : s.current.kind = .problem p) (ht : t.current.kind = .problem q)
      (h : failure (.lexical p s.current) (.lexical q t.current))

/-- What corresponds in two runs of the grammar. -/
structure Lockstep where
  /-- The policies of the two runs. -/
  left : OverflowPolicy
  right : OverflowPolicy
  stream : Stream → Stream → Prop
  arena : Arena → Arena → Prop
  span : Span → Span → Prop
  node : NodeId → NodeId → Prop
  excused : Failure → Prop
  failure : Failure → Failure → Prop
  /-- The tokens at the front look alike. -/
  front : ∀ {s t}, stream s t → s.current.kind.Alike t.current.kind
  text : ∀ {s t}, stream s t → s.current.kind.closes = false → s.current.text = t.current.text
  frontSpan : ∀ {s t}, stream s t → s.current.kind.closes = false →
    span s.current.span t.current.span
  /-- So do the next two, as far as rules look. -/
  second : ∀ {s t}, stream s t → s.current.kind.closes = false →
    (s.peek 1).kind.AlikeAhead (t.peek 1).kind
  third : ∀ {s t}, stream s t → s.current.kind.closes = false → (s.peek 1).kind = .symbol .dot →
    (s.peek 2).kind.AlikeAhead (t.peek 2).kind
  /-- Behind a token that a statement can hold the streams correspond too. -/
  advance : ∀ {s t}, stream s t → s.current.kind.closes = false →
    Stream.Meet stream excused failure s.advance t.advance
  /-- Failures at the front correspond. -/
  unexpected : ∀ {s t} (e : Expectation), stream s t →
    excused (.unexpected e s.current) ∨
      failure (.unexpected e s.current) (.unexpected e t.current)
  /-- What the first run promotes the second one promotes too, and what it refuses the second one
  refuses unless it is excused. -/
  promote : left = .promote → right = .promote
  range : ∀ {s t}, left = .reject → stream s t → s.current.kind = .leastMagnitude →
    excused (.lexical (.integerRange s.current.text.toList) s.current) ∨
      right = .reject ∧ failure (.lexical (.integerRange s.current.text.toList) s.current)
        (.lexical (.integerRange t.current.text.toList) t.current)
  /-- Spans that begin and end as corresponding spans do correspond. -/
  join : ∀ {a b c d}, span a b → span c d → span ⟨a.start, c.stop⟩ ⟨b.start, d.stop⟩
  /-- Adding corresponding nodes gives corresponding nodes. -/
  push : ∀ {A B n m}, arena A B → Node.Matches span n m →
    node A.size B.size ∧ arena (A.push n) (B.push m)
  pushList : ∀ {A B ids ids'}, arena A B → List.Forall₂ node ids ids' →
    node A.size B.size ∧ arena (A.pushList ids) (B.pushList ids')

namespace Lockstep

/-- What the two runs meet where they go on. -/
abbrev Meets (L : Lockstep) : Stream → Stream → Prop := Stream.Meet L.stream L.excused L.failure

/-- Two states side by side. -/
structure Beside (L : Lockstep) (s t : ParseState) : Prop where
  stream : L.stream s.stream t.stream
  arena : L.arena s.arena t.arena

/-- The result of the second run agrees with that of the first: both took equally many tokens from
the streams, also where they fail, and at least one for a value that `k` marks. -/
inductive Agrees {α β : Type} (L : Lockstep) (s t : Stream) (k : α → Bool) (V : α → β → Prop) :
    EStateM.Result Failure ParseState α → EStateM.Result Failure ParseState β → Prop
  | ok {a b s' t'} (j : Nat) (value : V a b) (beside : L.Beside s' t') (taken : k a = true → 1 ≤ j)
      (left : s'.stream.size + j = s.size) (right : t'.stream.size + j = t.size) :
      Agrees L s t k V (.ok a s') (.ok b t')
  | excused {e s' r} (h : L.excused e) : Agrees L s t k V (.error e s') r
  | failure {e f s' t'} (h : L.failure e f) (j : Nat) (left : s'.stream.size + j = s.size)
      (right : t'.stream.size + j = t.size) : Agrees L s t k V (.error e s') (.error f t')

/-- From states side by side, of which the first is as `F` says and has fewer than `n` tokens ahead,
the rule `y` follows the rule `x`. -/
def FollowsFrom {α β : Type} (L : Lockstep) (F : Stream → Prop) (n : Nat) (k : α → Bool)
    (x : Rule α) (y : Rule β) (V : α → β → Prop) : Prop :=
  ∀ s t, L.Beside s t → F s.stream → s.stream.size < n →
    L.Agrees s.stream t.stream k V (x s) (y t)

/-- From all states side by side the rule `y` follows the rule `x`. -/
abbrev Follows {α β : Type} (L : Lockstep) (n : Nat) (k : α → Bool) (x : Rule α) (y : Rule β)
    (V : α → β → Prop) : Prop := L.FollowsFrom (fun _ => True) n k x y V

variable {L : Lockstep} {α β γ δ : Type} {F G : Stream → Prop} {n m : Nat} {k l : α → Bool}
  {K : γ → Bool} {x : Rule α} {y : Rule β} {f : α → Rule γ} {g : β → Rule δ} {V V' : α → β → Prop}
  {W : γ → δ → Prop}

/-! ### Sequences of rules -/

theorem FollowsFrom.weaken (h : L.FollowsFrom F n k x y V) (hF : ∀ s, G s → F s) (hn : m ≤ n)
    (hk : ∀ a, l a = true → k a = true) (hV : ∀ a b, V a b → V' a b) :
    L.FollowsFrom G m l x y V' := by
  intro s t hst hG hm
  have hagrees := h s t hst (hF _ hG) (Nat.lt_of_lt_of_le hm hn)
  generalize x s = r at hagrees ⊢
  generalize y t = r' at hagrees ⊢
  cases hagrees with
  | ok j hab hbeside hj hs ht => exact .ok j (hV _ _ hab) hbeside (fun ha => hj (hk _ ha)) hs ht
  | excused he => exact .excused he
  | failure he j hs ht => exact .failure he j hs ht

/-- A rule that follows from all states follows from those that are as `F` says. -/
theorem Follows.from (h : L.Follows n k x y V) : L.FollowsFrom F n k x y V :=
  FollowsFrom.weaken h (fun _ _ => trivial) (Nat.le_refl n) (fun _ => id) fun _ _ => id

theorem Follows.mono (h : L.Follows n k x y V) (hm : m ≤ n) : L.Follows m k x y V :=
  FollowsFrom.weaken h (fun _ => id) hm (fun _ => id) fun _ _ => id

/-- Nothing need be said about the tokens taken. -/
theorem FollowsFrom.forget (h : L.FollowsFrom F n k x y V) :
    L.FollowsFrom F n (fun _ => false) x y V :=
  h.weaken (fun _ => id) (Nat.le_refl n) (fun _ h => nomatch h) fun _ _ => id

theorem FollowsFrom.imp (h : L.FollowsFrom F n k x y V) (hV : ∀ a b, V a b → V' a b) :
    L.FollowsFrom F n k x y V' :=
  h.weaken (fun _ => id) (Nat.le_refl n) (fun _ => id) hV

theorem FollowsFrom.done {a : α} {b : β} (h : V a b) (hk : k a = false) :
    L.FollowsFrom F n k (pure a) (pure b) V := by
  intro s t hst _ _
  refine .ok 0 h hst (fun ha => ?_) rfl rfl
  rw [hk] at ha
  cases ha

/-- The general rule for sequences: behind a value for which a token was taken, fewer tokens are
ahead, and no further one need be taken. -/
theorem FollowsFrom.bind (h : L.FollowsFrom F n k x y V)
    (hf : ∀ a b, V a b → ∃ m l, n ≤ m + (k a).toNat ∧
      (∀ c, K c = true → k a = true ∨ l c = true) ∧ L.Follows m l (f a) (g b) W) :
    L.FollowsFrom F n K (x >>= f) (y >>= g) W := by
  intro s t hst hF hn
  have hagrees := h s t hst hF hn
  generalize hx : x s = r at hagrees
  generalize hy : y t = r' at hagrees
  cases hagrees with
  | excused he => rw [Rule.bind_of_error hx]; exact .excused he
  | failure he j hs ht =>
    rw [Rule.bind_of_error hx, Rule.bind_of_error hy]
    exact .failure he j hs ht
  | @ok a b s' t' j hab hbeside hj hs ht =>
    obtain ⟨m, l, hm, hl, hfg⟩ := hf a b hab
    have hbound : s'.stream.size < m := by
      cases ha : k a with
      | true =>
        have := hj ha
        rw [ha, Bool.toNat_true] at hm
        omega
      | false =>
        rw [ha, Bool.toNat_false] at hm
        omega
    have hrest := hfg s' t' hbeside trivial hbound
    rw [Rule.bind_of_ok hx, Rule.bind_of_ok hy]
    generalize f a s' = r at hrest ⊢
    generalize g b t' = r' at hrest ⊢
    cases hrest with
    | excused he => exact .excused he
    | failure he j' hs' ht' => exact .failure he (j' + j) (by omega) (by omega)
    | @ok c d _ _ j' hcd hbeside' hj' hs' ht' =>
      refine .ok (j' + j) hcd hbeside' (fun hc => ?_) (by omega) (by omega)
      rcases hl c hc with ha | hc
      · have := hj ha
        omega
      · have := hj' hc
        omega

/-- One rule after another. -/
theorem FollowsFrom.then (h : L.FollowsFrom F n k x y V)
    (hf : ∀ a b, V a b → L.Follows n K (f a) (g b) W) :
    L.FollowsFrom F n K (x >>= f) (y >>= g) W :=
  h.bind fun a b hab => ⟨n, K, Nat.le_add_right _ _, fun _ => .inr, hf a b hab⟩

/-- One rule after another that has taken a token. -/
theorem FollowsFrom.after (h : L.FollowsFrom F n (fun _ => true) x y V)
    (hf : ∀ a b, V a b → L.Follows (n - 1) (fun _ => false) (f a) (g b) W) :
    L.FollowsFrom F n K (x >>= f) (y >>= g) W :=
  h.bind fun a b hab =>
    ⟨n - 1, _, by rw [Bool.toNat_true]; omega, fun _ _ => .inl rfl, hf a b hab⟩

/-- A rule may be followed by the one that gives its value back. -/
theorem FollowsFrom.of_bind_pure (h : L.FollowsFrom F n k (x >>= pure) (y >>= pure) V) :
    L.FollowsFrom F n k x y V := by
  rwa [bind_pure, bind_pure] at h

/-- What a state is known to be like may be used before the rule runs. -/
theorem FollowsFrom.know {p : Prop} (hF : ∀ s, F s → p) (h : p → L.FollowsFrom F n k x y V) :
    L.FollowsFrom F n k x y V :=
  fun s t hst hs hn => h (hF _ hs) s t hst hs hn

/-! ### Repetition -/

/-- A repetition follows another one if each step follows and takes a token when it goes on. -/
theorem Follows.iterate {step : α → Rule (Option α)} {step' : β → Rule (Option β)}
    (hstep : ∀ a b, V a b → L.Follows n Option.isSome (step a) (step' b) (Option.Rel V)) {a : α}
    {b : β} (h : V a b) :
    L.Follows n (fun _ => false) (Rule.iterate step a) (Rule.iterate step' b) V := by
  intro s t hst _ hn
  -- The induction is on the tokens ahead, of which each further step takes some.
  induction hsize : s.stream.size using Nat.strongRecOn generalizing a b s t with
  | ind size ih =>
    have hagrees := hstep a b h s t hst trivial hn
    rw [Rule.iterate, Rule.iterate]
    generalize step a s = r at hagrees ⊢
    generalize step' b t = r' at hagrees ⊢
    cases hagrees with
    | excused he => exact .excused he
    | failure he j hs ht => exact .failure he j hs ht
    | @ok o o' s' t' j hab hbeside hj hs ht =>
      cases hab with
      | none => exact .ok j h hbeside Bool.noConfusion hs ht
      | @some a' b' hab =>
        have hpos := hj rfl
        have hless : s'.stream.size < s.stream.size := by omega
        have hless' : t'.stream.size < t.stream.size := by omega
        show L.Agrees _ _ _ V (if _ then _ else _) (if _ then _ else _)
        rw [if_pos hless, if_pos hless']
        have hrest := ih _ (hsize ▸ hless) hab s' t' hbeside (by omega) rfl
        generalize Rule.iterate step a' s' = r at hrest ⊢
        generalize Rule.iterate step' b' t' = r' at hrest ⊢
        cases hrest with
        | excused he => exact .excused he
        | failure he j' hs' ht' => exact .failure he (j' + j) (by omega) (by omega)
        | ok j' hcd hbeside' hj' hs' ht' =>
          exact .ok (j' + j) hcd hbeside' Bool.noConfusion (by omega) (by omega)

end Lockstep

end TaggedSql
