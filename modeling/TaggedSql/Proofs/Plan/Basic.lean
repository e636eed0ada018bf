import TaggedSql.Proofs.Session.Script

/-!
# Plans of rules

What a rule does between its beginning and its end cannot be seen from the rule itself, which is a
function from states to states. A plan is a rule taken apart into single steps: looking at one of the
next three tokens, taking one, adding a node, failing at the token at the front, entering another rule,
and repeating. A rule is planned if it has a plan that runs as the rule does.

* `Plan`: the steps of a rule;
* `Plan.run`: the rule that a plan describes;
* `Plan.Advances`: every repetition in a plan comes to an end;
* `Closed.run`: what holds of every single step, and of sequences, holds of every rule with a plan.
-/

namespace TaggedSql

namespace Rule

variable {α β : Type}

/-- The state in which a rule leaves off, by a value or by a failure. -/
def after (x : Rule α) (s : ParseState) : ParseState :=
  match x s with
  | .ok _ s' | .error _ s' => s'

theorem after_of_ok {x : Rule α} {s s' : ParseState} {a : α} (h : x s = .ok a s') :
    after x s = s' := by
  rw [after, h]

theorem after_of_error {x : Rule α} {s s' : ParseState} {e : Failure} (h : x s = .error e s') :
    after x s = s' := by
  rw [after, h]

/-- Takes the token at the front, whatever stands behind it. -/
def take : Rule Unit := modify fun s => { s with stream := s.stream.advance }

/-- Fails at the token at the front. -/
def failAt (failure : Token → Failure) : Rule α := do throw (failure (← current))

/-- Takes all nodes out of the arena. -/
def harvest : Rule Arena := do
  let s ← get
  set { s with arena := {} }
  return s.arena

/-- A step takes a token whenever it leads to a further one. -/
def Advancing (step : α → Rule (Option α)) : Prop :=
  ∀ a s b s', step a s = .ok (some b) s' → s'.stream.size < s.stream.size

/-- A repetition goes on from the value that its first step gives. -/
theorem bind_iterate_of_some {step : α → Rule (Option α)} {a b : α} {s s' : ParseState}
    (f : α → Rule β) (h : step a s = .ok (some b) s') (hless : s'.stream.size < s.stream.size) :
    (iterate step a >>= f) s = (iterate step b >>= f) s' := by
  show EStateM.bind _ _ _ = EStateM.bind _ _ _
  rw [EStateM.bind, EStateM.bind, iterate_of_some h hless]

/-- A repetition as its first step and what follows it. -/
theorem iterate_eq_bind {step : α → Rule (Option α)} (hless : Advancing step) (a : α) :
    iterate step a = step a >>= fun o => match o with
      | none => pure a
      | some b => iterate step b := by
  funext s
  cases hrun : step a s with
  | error e s' => rw [iterate_of_error hrun, bind_of_error hrun]
  | ok o s' =>
    rw [bind_of_ok hrun]
    cases o with
    | none => exact iterate_of_none hrun
    | some b => exact iterate_of_some hrun (hless a s b s' hrun)

end Rule

/-! ### Plans -/

/-- Where a plan is at work: inside a statement, or between the statements of a source. -/
inductive Layer where
  | statement
  | source

/-- The steps of a rule, each with the steps behind it. -/
inductive Plan : Layer → Type → Type 1 where
  | done {l : Layer} {α : Type} (a : α) : Plan l α
  /-- Looks at one of the next three tokens. -/
  | look {l : Layer} {α : Type} (n : Fin 3) (next : Token → Plan l α) : Plan l α
  /-- Asks for the policy for integers that are too great. -/
  | policy {l : Layer} {α : Type} (next : OverflowPolicy → Plan l α) : Plan l α
  | take {l : Layer} {α : Type} (next : Plan l α) : Plan l α
  /-- Fails at the token at the front. -/
  | fail {l : Layer} {α : Type} (failure : Token → Failure)
      (located : ∀ t, (failure t).token = t) : Plan l α
  | push {l : Layer} {α : Type} (node : Node) (next : NodeId → Plan l α) : Plan l α
  | pushList {l : Layer} {α : Type} (items : List NodeId) (next : NodeId → Plan l α) : Plan l α
  /-- Takes all nodes out of the arena. -/
  | harvest {l : Layer} {α : Type} (next : Arena → Plan l α) : Plan l α
  /-- Enters a rule one level deeper. -/
  | enter {α : Type} (entry : Entry) (next : NodeId → Plan .statement α) : Plan .statement α
  /-- Begins a statement. -/
  | statement {α : Type} (next : NodeId → Plan .source α) : Plan .source α
  /-- Repeats steps, from one value to the next, until they give none. -/
  | loop {l : Layer} {α β : Type} (step : β → Plan l (Option β)) (b : β) (next : β → Plan l α) :
      Plan l α

namespace Plan

/-- The rule that a plan describes. -/
def run (c : Context) : {l : Layer} → {α : Type} → Plan l α → Rule α
  | _, _, .done a => pure a
  | _, _, .look n next => do (next (← Rule.peek n)).run c
  | _, _, .policy next => (next c.policy).run c
  | _, _, .take next => do Rule.take; next.run c
  | _, _, .fail failure _ => Rule.failAt failure
  | _, _, .push node next => do (next (← Rule.push node)).run c
  | _, _, .pushList items next => do (next (← Rule.pushList items)).run c
  | _, _, .harvest next => do (next (← Rule.harvest)).run c
  | _, _, .enter entry next => do (next (← c.enter entry)).run c
  | _, _, .statement next => do (next (← Statement.statement c)).run c
  | _, _, .loop step b next => do (next (← Rule.iterate (fun b => (step b).run c) b)).run c

/-- Every repetition in a plan takes a token with each step that leads to a further one. -/
def Advances (c : Context) : {l : Layer} → {α : Type} → Plan l α → Prop
  | _, _, .done _ | _, _, .fail _ _ => True
  | _, _, .look _ next => ∀ t, (next t).Advances c
  | _, _, .policy next => ∀ policy, (next policy).Advances c
  | _, _, .take next => next.Advances c
  | _, _, .push _ next | _, _, .pushList _ next | _, _, .enter _ next | _, _, .statement next =>
    ∀ id, (next id).Advances c
  | _, _, .harvest next => ∀ arena, (next arena).Advances c
  | _, _, .loop step _ next =>
    Rule.Advancing (fun b => (step b).run c) ∧ (∀ b, (step b).Advances c) ∧
      ∀ b, (next b).Advances c

/-- One plan after another. -/
def bind : {l : Layer} → {α β : Type} → Plan l α → (α → Plan l β) → Plan l β
  | _, _, _, .done a, f => f a
  | _, _, _, .look n next, f => .look n fun t => (next t).bind f
  | _, _, _, .policy next, f => .policy fun policy => (next policy).bind f
  | _, _, _, .take next, f => .take (next.bind f)
  | _, _, _, .fail failure located, _ => .fail failure located
  | _, _, _, .push node next, f => .push node fun id => (next id).bind f
  | _, _, _, .pushList items next, f => .pushList items fun id => (next id).bind f
  | _, _, _, .harvest next, f => .harvest fun arena => (next arena).bind f
  | _, _, _, .enter entry next, f => .enter entry fun id => (next id).bind f
  | _, _, _, .statement next, f => .statement fun id => (next id).bind f
  | _, _, _, .loop step b next, f => .loop step b fun b => (next b).bind f

variable {l : Layer} {α β : Type} {c : Context}

theorem run_bind (c : Context) (p : Plan l α) (f : α → Plan l β) :
    (p.bind f).run c = p.run c >>= fun a => (f a).run c := by
  induction p with
  | done a => rfl
  | fail failure located => rfl
  | policy next ih => exact ih c.policy f
  | take next ih => simp only [bind, run, bind_assoc, ih]
  | _ => simp only [bind, run, bind_assoc, *]

theorem advances_bind {p : Plan l α} {f : α → Plan l β} (hp : p.Advances c)
    (hf : ∀ a, (f a).Advances c) : (p.bind f).Advances c := by
  induction p with
  | done a => exact hf a
  | fail failure located => trivial
  | take next ih => exact ih hp hf
  | loop step b next _ ih => exact ⟨hp.1, hp.2.1, fun a => ih a (hp.2.2 a) hf⟩
  | policy next ih | harvest next ih | statement next ih => exact fun a => ih a (hp a) hf
  | look _ next ih | push _ next ih | pushList _ next ih | enter _ next ih =>
    exact fun a => ih a (hp a) hf

end Plan

/-! ### What holds of every step -/

/-- A property of the runs of rules that sequences of rules have if their parts have it, and that all
single steps of the layer have. -/
structure Closed (l : Layer) (c : Context) (P : {α : Type} → Rule α → ParseState → Prop) : Prop where
  done : ∀ {α : Type} (a : α) s, P (pure a) s
  bind : ∀ {α β : Type} {x : Rule α} {f : α → Rule β} {s : ParseState}, P x s →
    (∀ a s', x s = .ok a s' → P (f a) s') → P (x >>= f) s
  look : ∀ n < 3, ∀ s, P (Rule.peek n) s
  take : ∀ s, P Rule.take s
  fail : ∀ {α : Type} (failure : Token → Failure), (∀ t, (failure t).token = t) →
    ∀ s, P (Rule.failAt failure : Rule α) s
  push : ∀ node s, P (Rule.push node) s
  pushList : ∀ items s, P (Rule.pushList items) s
  harvest : ∀ s, P Rule.harvest s
  enter : l = .statement → ∀ entry s, P (c.enter entry) s
  statement : l = .source → ∀ s, P (Statement.statement c) s

namespace Closed

variable {l : Layer} {α : Type} {c : Context} {P : {α : Type} → Rule α → ParseState → Prop}

/-- Repetitions have a closed property if their steps have it. -/
theorem iterate (h : Closed l c P) {step : α → Rule (Option α)} (hless : Rule.Advancing step)
    (hstep : ∀ a s, P (step a) s) (a : α) (s : ParseState) : P (Rule.iterate step a) s := by
  induction hsize : s.stream.size using Nat.strongRecOn generalizing a s with
  | ind size ih =>
    rw [Rule.iterate_eq_bind hless]
    refine h.bind (hstep a s) fun o s' hrun => ?_
    cases o with
    | none => exact h.done a s'
    | some b => exact ih _ (hsize ▸ hless a s b s' hrun) b s' rfl

/-- A closed property holds of every run of a rule with a plan. -/
theorem run (h : Closed l c P) (p : Plan l α) (hp : p.Advances c) (s : ParseState) :
    P (p.run c) s := by
  induction p generalizing s with
  | done a => exact h.done a s
  | look n next ih => exact h.bind (h.look n n.isLt s) fun t s' _ => ih t h (hp t) s'
  | policy next ih => exact ih _ h (hp _) s
  | take next ih => exact h.bind (h.take s) fun _ s' _ => ih h hp s'
  | fail failure located => exact h.fail failure located s
  | push node next ih => exact h.bind (h.push node s) fun id s' _ => ih id h (hp id) s'
  | pushList items next ih => exact h.bind (h.pushList items s) fun id s' _ => ih id h (hp id) s'
  | harvest next ih => exact h.bind (h.harvest s) fun arena s' _ => ih arena h (hp arena) s'
  | enter entry next ih => exact h.bind (h.enter rfl entry s) fun id s' _ => ih id h (hp id) s'
  | statement next ih => exact h.bind (h.statement rfl s) fun id s' _ => ih id h (hp id) s'
  | loop step b next ihstep ih =>
    exact h.bind (h.iterate hp.1 (fun b => ihstep b h (hp.2.1 b)) b s) fun b s' _ =>
      ih b h (hp.2.2 b) s'

end Closed

/-! ### Contexts that give no tokens back -/

/-- What is ahead of a rule that is about to be entered: the tokens, and one more before a source in
parentheses, which may lead on to a query without taking a token. -/
def Entry.load (entry : Entry) (s : ParseState) : Nat :=
  match entry with
  | .tableSource => s.stream.size + 1
  | _ => s.stream.size

theorem Entry.size_le_load (entry : Entry) (s : ParseState) : s.stream.size ≤ entry.load s := by
  cases entry with
  | tableSource => exact Nat.le_succ _
  | _ => exact Nat.le_refl _

/-- The rules one level deeper give no tokens back, and a query takes at least one. -/
structure Context.Steady (c : Context) : Prop where
  size_le : ∀ entry s, (Rule.after (c.enter entry) s).stream.size ≤ s.stream.size
  query : ∀ s a s', c.query s = .ok a s' → s'.stream.size < s.stream.size

namespace Lockstep

/-- A rule follows another one if they are equal below a number of tokens and give none back. -/
theorem Follows.of_eq {α : Type} {policy : OverflowPolicy} {k : α → Bool} {n : Nat} {x y : Rule α}
    (heq : ∀ s, s.stream.size < n → x s = y s)
    (hsize : ∀ s, (Rule.after x s).stream.size ≤ s.stream.size)
    (htaken : ∀ s a s', x s = .ok a s' → k a = true → s'.stream.size < s.stream.size) :
    (heedless policy).Follows n k x y Eq := by
  rintro ⟨S, A⟩ ⟨_, _⟩ ⟨⟨rfl, _⟩, rfl⟩ _ hn
  have hle := hsize ⟨S, A⟩
  rw [← heq _ hn]
  cases hrun : x ⟨S, A⟩ with
  | ok a s' =>
    rw [Rule.after_of_ok hrun] at hle
    have hcount : s'.stream.size + (S.size - s'.stream.size) = S.size := Nat.add_sub_of_le hle
    refine .ok (S.size - s'.stream.size) rfl ⟨⟨rfl, trivial⟩, rfl⟩ (fun ha => ?_) hcount hcount
    exact Nat.sub_pos_of_lt (htaken _ _ _ hrun ha)
  | error e s' =>
    rw [Rule.after_of_error hrun] at hle
    have hcount : s'.stream.size + (S.size - s'.stream.size) = S.size := Nat.add_sub_of_le hle
    exact .failure ⟨rfl, trivial⟩ _ hcount hcount

/-- Contexts follow each other as far as they are equal. -/
theorem contexts_of_eq {c d : Context} {m : Nat} (hc : c.Steady) (hpolicy : d.policy = c.policy)
    (heq : ∀ entry s, entry.load s < m → c.enter entry s = d.enter entry s) :
    (heedless c.policy).Contexts c d m where
  left := rfl
  right := hpolicy
  expression _ := .of_eq (fun s hs => heq _ s hs) (hc.size_le _) fun _ _ _ _ h => nomatch h
  query := .of_eq (fun s hs => heq .query s hs) (hc.size_le _) fun s a s' h _ => hc.query s a s' h
  tableSource := .of_eq (fun s hs => heq .tableSource s (Nat.add_lt_of_lt_sub hs)) (hc.size_le _)
    fun _ _ _ _ h => nomatch h

end Lockstep

open Lockstep

theorem Context.Steady.contexts {c : Context} (hc : c.Steady) (n : Nat) :
    (heedless c.policy).Contexts c c n := contexts_of_eq hc rfl fun _ _ _ => rfl

/-- A rule that follows itself and takes a token for each value that goes on is advancing. -/
theorem Rule.advancing_of_follows {α : Type} {policy : OverflowPolicy} {step : α → Rule (Option α)}
    {V : Option α → Option α → Prop}
    (h : ∀ a n, (heedless policy).Follows n Option.isSome (step a) (step a) V) :
    Rule.Advancing step := by
  intro a s b s' hrun
  have hagrees := h a _ s s ⟨⟨rfl, trivial⟩, rfl⟩ trivial (Nat.lt_succ_self _)
  rw [hrun] at hagrees
  cases hagrees with
  | ok j _ _ htaken hleft _ =>
    have := htaken rfl
    omega

end TaggedSql
