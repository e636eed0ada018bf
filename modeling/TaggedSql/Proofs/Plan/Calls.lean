import TaggedSql.Proofs.Plan.Grammar

/-!
# The rules that a plan enters

Where a rule enters another one, fewer tokens are ahead than where it began, save that a source in
parentheses may be a query at once. This is read off the rules as wholes: a rule does not notice what
becomes of the rules that it would enter with more tokens ahead, so it enters none there.

* `Plan.Calls`: a plan enters a rule at some state;
* `Context.capped`: a context in which entering a rule with too many tokens ahead fails;
* `load_lt_of_calls`, `load_le_of_calls`: what is ahead where a rule or a statement enters another rule.
-/

namespace TaggedSql

open Rule Statement

/-- A plan that begins at the first state enters a rule at the second one. -/
inductive Plan.Calls (c : Context) :
    {l : Layer} → {α : Type} → Plan l α → ParseState → Entry → ParseState → Prop where
  | look {l : Layer} {α : Type} {n : Fin 3} {next : Token → Plan l α} {s s' : ParseState}
      {entry : Entry} (h : (next (s.stream.peek n)).Calls c s entry s') :
      (Plan.look n next).Calls c s entry s'
  | policy {l : Layer} {α : Type} {next : OverflowPolicy → Plan l α} {s s' : ParseState}
      {entry : Entry} (h : (next c.policy).Calls c s entry s') : (Plan.policy next).Calls c s entry s'
  | take {l : Layer} {α : Type} {next : Plan l α} {s s' : ParseState} {entry : Entry}
      (h : next.Calls c ⟨s.stream.advance, s.arena⟩ entry s') : (Plan.take next).Calls c s entry s'
  | push {l : Layer} {α : Type} {node : Node} {next : NodeId → Plan l α} {s s' : ParseState}
      {entry : Entry} (h : (next s.arena.size).Calls c ⟨s.stream, s.arena.push node⟩ entry s') :
      (Plan.push node next).Calls c s entry s'
  | pushList {l : Layer} {α : Type} {items : List NodeId} {next : NodeId → Plan l α}
      {s s' : ParseState} {entry : Entry}
      (h : (next s.arena.size).Calls c ⟨s.stream, s.arena.pushList items⟩ entry s') :
      (Plan.pushList items next).Calls c s entry s'
  | harvest {l : Layer} {α : Type} {next : Arena → Plan l α} {s s' : ParseState} {entry : Entry}
      (h : (next s.arena).Calls c ⟨s.stream, {}⟩ entry s') : (Plan.harvest next).Calls c s entry s'
  | here {α : Type} {entry : Entry} {next : NodeId → Plan .statement α} {s : ParseState} :
      (Plan.enter entry next).Calls c s entry s
  | enter {α : Type} {entry entry' : Entry} {next : NodeId → Plan .statement α} {s s₁ s' : ParseState}
      {id : NodeId} (hrun : c.enter entry s = .ok id s₁) (h : (next id).Calls c s₁ entry' s') :
      (Plan.enter entry next).Calls c s entry' s'
  | statement {α : Type} {entry : Entry} {next : NodeId → Plan .source α} {s s₁ s' : ParseState}
      {id : NodeId} (hrun : Statement.statement c s = .ok id s₁) (h : (next id).Calls c s₁ entry s') :
      (Plan.statement next).Calls c s entry s'
  | round {l : Layer} {α β : Type} {step : β → Plan l (Option β)} {b : β} {next : β → Plan l α}
      {s s' : ParseState} {entry : Entry} (h : (step b).Calls c s entry s') :
      (Plan.loop step b next).Calls c s entry s'
  | again {l : Layer} {α β : Type} {step : β → Plan l (Option β)} {b b' : β} {next : β → Plan l α}
      {s s₁ s' : ParseState} {entry : Entry} (hrun : (step b).run c s = .ok (some b') s₁)
      (h : (Plan.loop step b' next).Calls c s₁ entry s') : (Plan.loop step b next).Calls c s entry s'
  | behind {l : Layer} {α β : Type} {step : β → Plan l (Option β)} {b : β} {next : β → Plan l α}
      {s s₁ s' : ParseState} {entry : Entry} (hrun : (step b).run c s = .ok none s₁)
      (h : (next b).Calls c s₁ entry s') : (Plan.loop step b next).Calls c s entry s'

/-- The context in which entering a rule fails if too much is ahead. -/
def Context.capped (c : Context) (bound : Nat) (e : Failure) : Context where
  policy := c.policy
  enter entry s := if entry.load s < bound then c.enter entry s else .error e s

namespace Context

variable {c : Context} {bound : Nat} {e : Failure} {entry : Entry} {s : ParseState}

theorem capped_of_lt (h : entry.load s < bound) :
    (c.capped bound e).enter entry s = c.enter entry s := if_pos h

theorem capped_of_le (h : bound ≤ entry.load s) : (c.capped bound e).enter entry s = .error e s :=
  if_neg (Nat.not_lt.2 h)

theorem Steady.capped (hc : c.Steady) (bound : Nat) (e : Failure) : (c.capped bound e).Steady where
  size_le entry s := by
    rcases Nat.lt_or_ge (entry.load s) bound with hlt | hle
    · rw [after, capped_of_lt hlt]
      exact hc.size_le entry s
    · rw [after_of_error (capped_of_le hle)]
  query s id s' h := by
    rcases Nat.lt_or_ge (Entry.query.load s) bound with hlt | hle
    · rw [Context.query, capped_of_lt hlt] at h
      exact hc.query s id s' h
    · rw [Context.query, capped_of_le hle] at h
      cases h

end Context

/-- A rule runs as another one does unless it stops with a failure. -/
def Rule.Stopping {α : Type} (e : Failure) (x y : Rule α) : Prop :=
  ∀ s, x s = y s ∨ ∃ s', x s = .error e s'

namespace Rule.Stopping

variable {α β : Type} {e : Failure} {x y : Rule α} {f g : α → Rule β}
  {step step' : α → Rule (Option α)}

theorem bind (h : Stopping e x y) (hf : ∀ a, Stopping e (f a) (g a)) :
    Stopping e (x >>= f) (y >>= g) := by
  intro s
  rcases h s with heq | ⟨s', herror⟩
  · cases hrun : y s with
    | error e' s' =>
      left
      rw [bind_of_error (heq.trans hrun), bind_of_error hrun]
    | ok a s' =>
      rw [bind_of_ok (heq.trans hrun), bind_of_ok hrun]
      exact hf a s'
  · exact .inr ⟨s', bind_of_error herror⟩

theorem iterate (hless : Advancing step') (h : ∀ a, Stopping e (step a) (step' a)) (a : α) :
    Stopping e (Rule.iterate step a) (Rule.iterate step' a) := by
  intro s
  induction hsize : s.stream.size using Nat.strongRecOn generalizing a s with
  | ind size ih =>
    rcases h a s with heq | ⟨s', herror⟩
    · cases hrun : step' a s with
      | error e' s' =>
        left
        rw [iterate_of_error (heq.trans hrun), iterate_of_error hrun]
      | ok o s' =>
        cases o with
        | none =>
          left
          rw [iterate_of_none (heq.trans hrun), iterate_of_none hrun]
        | some b =>
          have hshorter := hless a s b s' hrun
          rw [iterate_of_some (heq.trans hrun) hshorter, iterate_of_some hrun hshorter]
          exact ih _ (hsize ▸ hshorter) b s' rfl
    · exact .inr ⟨s', iterate_of_error herror⟩

end Rule.Stopping

namespace Plan

variable {l : Layer} {α : Type} {c : Context} {p : Plan l α} {entry : Entry} {s s' : ParseState}
  {bound : Nat}

/-- In a capped context a plan inside a statement runs as before, or meets the cap. -/
theorem stopping_capped (hl : l = .statement) (hp : p.Advances c) (bound : Nat) (e : Failure) :
    Stopping e (p.run (c.capped bound e)) (p.run c) := by
  induction p with
  | done a | fail failure located => exact fun _ => .inl rfl
  | policy next ih => exact ih c.policy hl (hp _)
  | take next ih => exact .bind (fun _ => .inl rfl) fun _ => ih hl hp
  | look _ next ih | push _ next ih | pushList _ next ih | harvest next ih =>
    exact .bind (fun _ => .inl rfl) fun a => ih a hl (hp a)
  | statement next ih => cases hl
  | enter entry next ih =>
    refine .bind (fun s => ?_) fun id => ih id hl (hp id)
    rcases Nat.lt_or_ge (entry.load s) bound with hlt | hle
    · exact .inl (Context.capped_of_lt hlt)
    · exact .inr ⟨s, Context.capped_of_le hle⟩
  | loop step b next ihstep ih =>
    exact .bind (.iterate hp.1 (fun b => ihstep b hl (hp.2.1 b)) b) fun b => ih b hl (hp.2.2 b)

/-- A plan that enters a rule beyond the cap meets the cap. -/
theorem run_capped_of_calls (h : p.Calls c s entry s') (hl : l = .statement) (hp : p.Advances c)
    (hle : bound ≤ entry.load s') (e : Failure) : ∃ s', p.run (c.capped bound e) s = .error e s' := by
  induction h with
  | look _ ih | policy _ ih | push _ ih | pushList _ ih | harvest _ ih => exact ih hl (hp _) hle
  | take _ ih => exact ih hl hp hle
  | here => exact ⟨_, bind_of_error (Context.capped_of_le hle)⟩
  | statement => cases hl
  | @enter _ entry _ next s _ _ id hrun _ ih =>
    rcases Nat.lt_or_ge (entry.load s) bound with hlt | hle'
    · rw [run, bind_of_ok ((Context.capped_of_lt hlt).trans hrun)]
      exact ih hl (hp id) hle
    · exact ⟨s, bind_of_error (Context.capped_of_le hle')⟩
  | round _ ih =>
    obtain ⟨s', herror⟩ := ih hl (hp.2.1 _) hle
    exact ⟨s', bind_of_error (iterate_of_error herror)⟩
  | again hrun _ ih =>
    rcases stopping_capped hl (hp.2.1 _) bound e _ with heq | ⟨s', herror⟩
    · obtain ⟨s', herror⟩ := ih hl hp hle
      have hshorter := hp.1 _ _ _ _ hrun
      refine ⟨s', ?_⟩
      rw [← herror, run, run, bind_iterate_of_some _ (heq.trans hrun) hshorter]
    · exact ⟨s', bind_of_error (iterate_of_error herror)⟩
  | behind hrun _ ih =>
    rcases stopping_capped hl (hp.2.1 _) bound e _ with heq | ⟨s', herror⟩
    · rw [run, bind_of_ok (iterate_of_none (heq.trans hrun))]
      exact ih hl (hp.2.2 _) hle
    · exact ⟨s', bind_of_error (iterate_of_error herror)⟩

end Plan

/-! ### What is ahead of the rules that are entered -/

section Load

variable {c : Context} {entry entry' : Entry} {s s' : ParseState}

/-- Two contexts with different failures at one cap follow each other below the cap. -/
theorem contexts_capped (hc : c.Steady) (bound : Nat) (e f : Failure) :
    (Lockstep.heedless c.policy).Contexts (c.capped bound e) (c.capped bound f) bound :=
  Lockstep.contexts_of_eq (hc.capped bound e) rfl fun _ _ h => by
    rw [Context.capped_of_lt h, Context.capped_of_lt h]

/-- A rule whose failure does not depend on the failure at the cap meets no cap. -/
theorem Planned.load_lt_of_calls {rule : Context → Rule NodeId} (h : Inner rule) (hc : c.Steady)
    {bound : Nat} {k : NodeId → Bool} {n : Nat} {V : NodeId → NodeId → Prop}
    (hfollows : ∀ e f, (Lockstep.heedless c.policy).Follows n k (rule (c.capped bound e))
      (rule (c.capped bound f)) V) (hn : s.stream.size < n)
    (hcalls : h.plan.Calls c s entry s') : entry.load s' < bound := by
  by_contra hle
  have herror : ∀ e, ∃ s', rule (c.capped bound e) s = .error e s' := by
    intro e
    rw [← h.run_eq _ (hc.capped bound e)]
    exact Plan.run_capped_of_calls hcalls rfl (h.advances c hc) (Nat.not_lt.1 hle) e
  -- The rule would fail in two ways at once.
  obtain ⟨_, hstatement⟩ := herror (.unexpected .statement s.stream.current)
  obtain ⟨_, hquery⟩ := herror (.unexpected .query s.stream.current)
  have hagrees := hfollows (.unexpected .statement s.stream.current)
    (.unexpected .query s.stream.current) s s ⟨⟨rfl, trivial⟩, rfl⟩ trivial hn
  rw [hstatement, hquery] at hagrees
  cases hagrees with
  | excused h => exact h
  | failure h _ _ _ => cases h.1

/-- Less is ahead where a rule enters another one than where it began. -/
theorem load_lt_of_calls (hc : c.Steady) (h : (bodyPlan entry).plan.Calls c s entry' s') :
    entry'.load s' < entry.load s := by
  have hcontexts := fun e f => contexts_capped hc (entry.load s) e f
  cases entry with
  | expression power =>
    exact (bodyPlan (.expression power)).load_lt_of_calls hc
      (fun e f => Lockstep.follows_expression (hcontexts e f) power) (Nat.lt_succ_self _) h
  | query =>
    exact (bodyPlan .query).load_lt_of_calls hc
      (fun e f => Lockstep.follows_query (hcontexts e f)) (Nat.lt_succ_self _) h
  | tableSource =>
    exact (bodyPlan .tableSource).load_lt_of_calls hc
      (fun e f => Lockstep.follows_tableSource (hcontexts e f)) (Nat.lt_succ_self _) h

/-- Where a statement enters a rule, no more is ahead than the tokens of the statement. -/
theorem load_le_of_calls (hc : c.Steady) (h : statementPlan.plan.Calls c s entry s') :
    entry.load s' ≤ s.stream.size :=
  Nat.le_of_lt_succ (statementPlan.load_lt_of_calls hc
    (fun e f => Lockstep.follows_statement (contexts_capped hc (s.stream.size + 1) e f))
    (Nat.lt_succ_self _) h)

end Load

end TaggedSql
