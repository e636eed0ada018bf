import TaggedSql.Proofs.Plan.Grammar

/-!
# How far rules look

A rule depends on the tokens that it takes and on the next three, and on nothing behind them: a run on
another stream that shows the same tokens so far gives the same value, or fails in the same way. A
failure names the token at the front where the rule leaves off.

* `Stream.Agree`: two streams show the same first tokens;
* `Rule.Local`: a rule depends on no more than the tokens that it takes and the next three;
* `closed_local`: sequences and repetitions of such rules are such rules;
* `local_single`: reading a single statement is one.
-/

namespace TaggedSql

namespace Stream

variable {s t : Stream} {m n : Nat}

theorem peek_iterate_advance (s : Stream) (n j : Nat) :
    (advance^[n] s).peek j = s.peek (j + n) := by
  induction n generalizing s with
  | zero => rfl
  | succ n ih => rw [Function.iterate_succ_apply, ih, peek_advance, Nat.add_assoc]

/-- Two streams show the same first tokens. -/
def Agree (n : Nat) (s t : Stream) : Prop := ∀ j < n, s.peek j = t.peek j

theorem Agree.mono (h : Agree n s t) (hm : m ≤ n) : Agree m s t :=
  fun j hj => h j (Nat.lt_of_lt_of_le hj hm)

/-- Behind the same number of tokens they still agree. -/
theorem Agree.advance (h : Agree (m + n) s t) :
    Agree m (Stream.advance^[n] s) (Stream.advance^[n] t) := by
  intro j hj
  rw [peek_iterate_advance, peek_iterate_advance]
  exact h (j + n) (Nat.add_lt_add_right hj n)

end Stream

namespace Rule

variable {α β : Type} {x : Rule α} {f : α → Rule β} {s s' : ParseState}

/-- The same result, with other tokens ahead. -/
def withStream (T : Stream) :
    EStateM.Result Failure ParseState α → EStateM.Result Failure ParseState α
  | .ok a s => .ok a { s with stream := T }
  | .error e s => .error e { s with stream := T }

/-- From a state a rule takes a number of tokens and depends on them and on the next three. A failure
names the token at the front. -/
structure Sees (x : Rule α) (n : Nat) (s : ParseState) : Prop where
  taken : (after x s).stream = Stream.advance^[n] s.stream
  located : ∀ e s', x s = .error e s' → e.token = s'.stream.current
  eq : ∀ T, Stream.Agree (n + 3) s.stream T →
    x ⟨T, s.arena⟩ = withStream (Stream.advance^[n] T) (x s)

/-- A rule depends on no more than the tokens that it takes and the next three. -/
def Local (x : Rule α) : Prop := ∀ s, ∃ n, Sees x n s

/-- What a rule sees that is followed by another one. -/
theorem Sees.bind {a : α} {m n : Nat} (h : Sees x n s) (hrun : x s = .ok a s')
    (hf : Sees (f a) m s') : Sees (x >>= f) (m + n) s := by
  have htaken := h.taken
  rw [after_of_ok hrun] at htaken
  have hafter : after (x >>= f) s = after (f a) s' := by
    rw [after, bind_of_ok hrun]
    rfl
  refine ⟨?_, fun e s'' he => hf.located e s'' ((bind_of_ok hrun).symm.trans he), fun T hT => ?_⟩
  · rw [hafter, hf.taken, htaken, Function.iterate_add_apply]
  · have hfirst := h.eq T (hT.mono (by omega))
    rw [hrun] at hfirst
    have hagree : Stream.Agree (m + 3) s'.stream (Stream.advance^[n] T) := by
      rw [htaken]
      exact Stream.Agree.advance (hT.mono (by omega))
    have hsecond := hf.eq _ hagree
    rw [bind_of_ok hrun, bind_of_ok hfirst, Function.iterate_add_apply, ← hsecond]

/-- What a rule sees that fails, whatever would follow it. -/
theorem Sees.bind_error {e : Failure} {n : Nat} (h : Sees x n s) (hrun : x s = .error e s') :
    Sees (x >>= f) n s := by
  have htaken := h.taken
  rw [after_of_error hrun] at htaken
  refine ⟨?_, fun e' s'' he => ?_, fun T hT => ?_⟩
  · rw [after_of_error (bind_of_error hrun)]
    exact htaken
  · cases (bind_of_error (f := f) hrun).symm.trans he
    exact h.located e s' hrun
  · have hfirst := h.eq T hT
    rw [hrun] at hfirst
    rw [bind_of_error hrun, bind_of_error hfirst]
    rfl

theorem Local.failAt {failure : Token → Failure} (located : ∀ t, (failure t).token = t) :
    Local (failAt failure : Rule α) := by
  refine fun s => ⟨0, rfl, fun e s' he => ?_, fun T hT => ?_⟩
  · cases he
    exact located _
  · have hfront : T.current = s.stream.current := (hT 0 (by omega)).symm
    show EStateM.Result.error (failure T.current) _ = .error (failure s.stream.current) _
    rw [hfront]
    rfl

end Rule

open Rule Statement

/-- Rules with plans depend on no more than the tokens they take and the next three, if the rules that
they enter do. -/
theorem closed_local {l : Layer} {c : Context} (henter : l = .statement → ∀ entry, Local (c.enter entry))
    (hstatement : l = .source → Local (statement c)) : Closed l c fun x s => ∃ n, Sees x n s where
  done _ _ := ⟨0, rfl, fun _ _ h => (nomatch h), fun _ _ => rfl⟩
  bind := by
    rintro _ _ x f s ⟨n, hn⟩ hf
    cases hrun : x s with
    | error e s' => exact ⟨n, hn.bind_error hrun⟩
    | ok a s' =>
      obtain ⟨m, hm⟩ := hf a s' hrun
      exact ⟨m + n, hn.bind hrun hm⟩
  look n hn s := by
    refine ⟨0, rfl, fun _ _ h => (nomatch h), fun T hT => ?_⟩
    show EStateM.Result.ok (T.peek n) _ = .ok (s.stream.peek n) _
    rw [hT n (by omega)]
    rfl
  take _ := ⟨1, rfl, fun _ _ h => (nomatch h), fun _ _ => rfl⟩
  fail _ located := Local.failAt located
  push _ _ := ⟨0, rfl, fun _ _ h => (nomatch h), fun _ _ => rfl⟩
  pushList _ _ := ⟨0, rfl, fun _ _ h => (nomatch h), fun _ _ => rfl⟩
  harvest _ := ⟨0, rfl, fun _ _ h => (nomatch h), fun _ _ => rfl⟩
  enter := henter
  statement := hstatement

/-- The rules on every level depend on no more than the tokens they take and the next three. -/
theorem local_enter (settings : Settings) (room : Nat) (entry : Entry) :
    Local (enter settings room entry) := by
  induction room generalizing entry with
  | zero => exact .failAt fun _ => rfl
  | succ room ih =>
    exact (bodyPlan entry).holds (closed_local (fun _ => ih) fun h => nomatch h)
      (steady_roomContext settings room)

theorem local_statement (settings : Settings) : Local (statement (context settings)) :=
  statementPlan.holds (closed_local (fun _ => local_enter settings settings.maxDepth)
    fun h => nomatch h) (steady_context settings)

/-- Reading a single statement depends on no more than the tokens taken and the next three. -/
theorem local_single (settings : Settings) (source : String) : Local (single settings source) :=
  (singlePlan settings source).holds
    (closed_local (fun h => nomatch h) fun _ => local_statement settings) rfl

end TaggedSql
