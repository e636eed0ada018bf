import TaggedSql.Proofs.Grammar.Parts
import TaggedSql.Proofs.Token.Source

/-!
# Running rules

What the smallest rules do to a state: looking at tokens leaves it alone, and taking a token moves
the stream. A sequence of rules runs as its second part does behind the first, and a repetition ends as
its last step does. The words of a type are taken without adding a node.
-/

namespace TaggedSql

/-- Whether a query begins with a token of the kind. -/
def Kind.startsQuery : Kind → Bool
  | .word .SELECT | .word .VALUES | .word .WITH => true
  | _ => false

theorem Kind.eq_word_of_word? {kind : Kind} {w : Word} (h : kind.word? = some w) :
    kind = .word w := by
  cases kind with
  | word w' =>
    cases h
    rfl
  | _ => cases h

namespace Stream

/-- Before the end of the source a token stands ahead. -/
theorem size_advance {s : Stream} (h : s.current.kind ≠ .endOfInput) :
    s.advance.size + 1 = s.size := by
  cases hahead : s.ahead with
  | nil =>
    have hcurrent : s.current = Token.endAt s.stop := by rw [current, peek, hahead]; rfl
    rw [hcurrent] at h
    exact absurd rfl h
  | cons t ts => simp [size, advance, hahead]

theorem peek_advance (s : Stream) (n : Nat) : s.advance.peek n = s.peek (n + 1) := by
  rw [peek, peek, advance]
  cases s.ahead <;> rfl

theorem current_advance (s : Stream) : s.advance.current = s.peek 1 := s.peek_advance 0

/-- The tokens ahead, the end token last. -/
def rest (s : Stream) : List Token := s.ahead ++ [Token.endAt s.stop]

theorem rest_eq_cons {s : Stream} (h : s.current.kind ≠ .endOfInput) :
    s.rest = s.current :: s.advance.rest := by
  rw [rest, rest, current, peek, advance]
  cases hahead : s.ahead with
  | nil =>
    rw [current, peek, hahead] at h
    exact absurd rfl h
  | cons t ts => rfl

theorem head?_rest (s : Stream) : s.rest.head? = some s.current := by
  rw [rest, current, peek]
  cases s.ahead with
  | nil => rfl
  | cons t ts => rfl

theorem current_mem_rest (s : Stream) : s.current ∈ s.rest := List.mem_of_head? s.head?_rest

theorem rest_advance_suffix (s : Stream) : s.advance.rest <:+ s.rest := by
  by_cases hend : s.ahead = []
  · rw [rest, rest, advance, hend]
    exact List.suffix_rfl
  · obtain ⟨t, ts, hahead⟩ := List.exists_cons_of_ne_nil hend
    rw [rest, rest, advance, hahead]
    exact List.suffix_cons t _

/-! ### Two streams, token by token -/

section Forall₂

variable {R : Token → Token → Prop} {s t : Stream}

/-- If all tokens of two streams correspond, then so do their ends. -/
theorem forall₂_of_rest (h : List.Forall₂ R s.rest t.rest) :
    List.Forall₂ R s.ahead t.ahead ∧ R (Token.endAt s.stop) (Token.endAt t.stop) := by
  have hlength : s.ahead.length = t.ahead.length := by
    have := h.length_eq
    simpa [rest] using this
  have hahead := List.forall₂_take_append _ _ _ h
  have hend := List.forall₂_drop_append _ _ _ h
  rw [← hlength, rest, List.take_left] at hahead
  rw [← hlength, rest, List.drop_left] at hend
  exact ⟨hahead, (List.forall₂_cons.1 hend).1⟩

theorem forall₂_peek (h : List.Forall₂ R s.ahead t.ahead)
    (hstop : R (Token.endAt s.stop) (Token.endAt t.stop)) (n : Nat) : R (s.peek n) (t.peek n) := by
  rw [peek, peek]
  generalize s.ahead = ts at h
  generalize t.ahead = us at h
  induction h generalizing n with
  | nil => exact hstop
  | cons htu _ ih =>
    cases n with
    | zero => exact htu
    | succ n => exact ih n

theorem forall₂_advance (h : List.Forall₂ R s.ahead t.ahead) :
    List.Forall₂ R s.advance.ahead t.advance.ahead := by
  show List.Forall₂ _ s.ahead.tail t.ahead.tail
  generalize s.ahead = ts at h ⊢
  generalize t.ahead = us at h ⊢
  cases h with
  | nil => exact .nil
  | cons _ htail => exact htail

end Forall₂

end Stream

namespace Rule

variable {α β : Type} {m : Rule α} {f : α → Rule β} {s s' : ParseState}

theorem bind_of_ok {a : α} (h : m s = .ok a s') : (m >>= f) s = f a s' := by
  show EStateM.bind m f s = _
  rw [EStateM.bind, h]

theorem bind_of_error {e : Failure} (h : m s = .error e s') : (m >>= f) s = .error e s' := by
  show EStateM.bind m f s = _
  rw [EStateM.bind, h]

/-- A sequence that gives a value does so part by part. -/
theorem bind_eq_ok {b : β} (h : (m >>= f) s = .ok b s') :
    ∃ a s₁, m s = .ok a s₁ ∧ f a s₁ = .ok b s' := by
  cases hm : m s with
  | ok a s₁ =>
    rw [bind_of_ok hm] at h
    exact ⟨a, s₁, rfl, h⟩
  | error e s₁ =>
    rw [bind_of_error hm] at h
    cases h

/-- A rule that goes on as another one does with what a third one gives. -/
theorem bind_of_bind {γ : Type} {e : Rule γ} {k : γ → Rule α} (h : m s = (e >>= k) s') :
    (m >>= f) s = (e >>= fun c => k c >>= f) s' := by
  rw [← bind_assoc]
  show EStateM.bind m f s = EStateM.bind (e >>= k) f s'
  rw [EStateM.bind, EStateM.bind, h]

theorem map_of_ok {a : α} {g : α → β} (h : m s = .ok a s') : (g <$> m) s = .ok (g a) s' := by
  show EStateM.map g m s = _
  rw [EStateM.map, h]

theorem map_of_error {e : Failure} {g : α → β} (h : m s = .error e s') :
    (g <$> m) s = .error e s' := by
  show EStateM.map g m s = _
  rw [EStateM.map, h]

/-! ### Repetition -/

section Iterate

variable {step : α → Rule (Option α)} {a b : α}

theorem iterate_of_error {e : Failure} (h : step a s = .error e s') :
    iterate step a s = .error e s' := by
  rw [iterate, h]

theorem iterate_of_none (h : step a s = .ok none s') : iterate step a s = .ok a s' := by
  rw [iterate, h]

theorem iterate_of_some (h : step a s = .ok (some b) s')
    (hless : s'.stream.size < s.stream.size) : iterate step a s = iterate step b s' := by
  rw [iterate, h]
  exact if_pos hless

/-- A repetition ends as its last step does, from which all holds that the steps preserve: that step
fails, or it gives nothing, or it takes no token. -/
theorem iterate_last {R : α → ParseState → Prop}
    (hsome : ∀ a s b s', R a s → step a s = .ok (some b) s' → R b s') (ha : R a s) :
    ∃ c s₁, R c s₁ ∧
      ((∃ e s', step c s₁ = .error e s' ∧ iterate step a s = .error e s') ∨
        (∃ s', step c s₁ = .ok none s' ∧ iterate step a s = .ok c s') ∨
        ∃ b s', step c s₁ = .ok (some b) s' ∧ s₁.stream.size ≤ s'.stream.size ∧
          iterate step a s = .ok b s') := by
  -- The induction is on the tokens ahead, of which each further step takes some.
  induction hsize : s.stream.size using Nat.strongRecOn generalizing a s with
  | ind size ih =>
    cases hrun : step a s with
    | error e s' => exact ⟨a, s, ha, .inl ⟨e, s', hrun, iterate_of_error hrun⟩⟩
    | ok o s' =>
      cases o with
      | none => exact ⟨a, s, ha, .inr (.inl ⟨s', hrun, iterate_of_none hrun⟩)⟩
      | some b =>
        have hb := hsome _ _ _ _ ha hrun
        by_cases hless : s'.stream.size < s.stream.size
        · rw [iterate_of_some hrun hless]
          exact ih _ (hsize ▸ hless) hb rfl
        · refine ⟨a, s, ha, .inr (.inr ⟨b, s', hrun, Nat.le_of_not_lt hless, ?_⟩)⟩
          rw [iterate, hrun]
          exact if_neg hless

/-- What every step preserves holds behind a repetition. -/
theorem iterate_induction {R : α → ParseState → Prop}
    (hnone : ∀ a s s', R a s → step a s = .ok none s' → R a s')
    (hsome : ∀ a s b s', R a s → step a s = .ok (some b) s' → R b s') (ha : R a s)
    (h : iterate step a s = .ok b s') : R b s' := by
  obtain ⟨c, s₁, hc, hlast⟩ := iterate_last hsome ha
  rcases hlast with ⟨e, s₂, _, hend⟩ | ⟨s₂, hrun, hend⟩ | ⟨d, s₂, hrun, _, hend⟩
  · rw [hend] at h
    cases h
  · rw [hend] at h
    cases h
    exact hnone _ _ _ hc hrun
  · rw [hend] at h
    cases h
    exact hsome _ _ _ _ hc hrun

/-- A repetition whose steps all take tokens ends with a step that gives nothing. -/
theorem exists_last_step
    (hstep : ∀ a s b s', step a s = .ok (some b) s' → s'.stream.size < s.stream.size)
    (h : iterate step a s = .ok b s') : ∃ s₁, step b s₁ = .ok none s' := by
  obtain ⟨c, s₁, _, hlast⟩ :=
    iterate_last (R := fun _ _ => True) (fun _ _ _ _ _ _ => trivial) (s := s) (a := a) trivial
  rcases hlast with ⟨e, s₂, _, hend⟩ | ⟨s₂, hrun, hend⟩ | ⟨d, s₂, hrun, hle, hend⟩
  · rw [hend] at h
    cases h
  · rw [hend] at h
    cases h
    exact ⟨s₁, hrun⟩
  · exact absurd (hstep c s₁ d s₂ hrun) (Nat.not_lt.2 hle)

/-- A repetition on other values, if each step is the same on them. -/
theorem iterate_map {g : α → β} {step' : β → Rule (Option β)}
    (hless : ∀ a s b s', step a s = .ok (some b) s' → s'.stream.size < s.stream.size)
    (h : ∀ a, step' (g a) = Option.map g <$> step a) (a : α) :
    iterate step' (g a) = g <$> iterate step a := by
  funext s
  induction hsize : s.stream.size using Nat.strongRecOn generalizing a s with
  | ind size ih =>
    have hstep' : step' (g a) s = (Option.map g <$> step a) s := by rw [h]
    cases hrun : step a s with
    | error e s' =>
      rw [map_of_error hrun] at hstep'
      rw [iterate_of_error hstep', map_of_error (iterate_of_error hrun)]
    | ok o s' =>
      rw [map_of_ok hrun] at hstep'
      cases o with
      | none => rw [iterate_of_none hstep', map_of_ok (iterate_of_none hrun)]
      | some b =>
        have hless' := hless a s b s' hrun
        have hrest := ih _ (hsize ▸ hless') b s' rfl
        rw [iterate_of_some hstep' hless', hrest]
        show EStateM.map g _ _ = EStateM.map g _ _
        rw [EStateM.map, EStateM.map, iterate_of_some hrun hless']

end Iterate

/-! ### Looking at tokens -/

theorem peek_run (n : Nat) (s : ParseState) : peek n s = .ok (s.stream.peek n) s := rfl

theorem current_run (s : ParseState) : current s = .ok s.stream.current s := rfl

theorem currentWord?_run (s : ParseState) : currentWord? s = .ok s.stream.current.kind.word? s := rfl

theorem at?_run (t : Terminal) (s : ParseState) :
    at? t s = .ok (s.stream.current.kind == t.kind) s := rfl

theorem atEnd_run (s : ParseState) : atEnd s = .ok s.stream.current.isEnd s := rfl

theorem atPlainIdentifier_run (s : ParseState) :
    atPlainIdentifier s = .ok (s.stream.current.kind == .identifier false) s := rfl

theorem atQuery_run (s : ParseState) :
    atQuery s = .ok (s.stream.current.kind.startsQuery) s := by
  rw [atQuery, bind_of_ok (currentWord?_run s)]
  cases s.stream.current.kind with
  | word w => cases w <;> rfl
  | _ => rfl

/-! ### Taking tokens -/

theorem checkSpelling_run (h : ∀ problem, s.stream.current.kind ≠ .problem problem) :
    checkSpelling s = .ok () s := by
  rw [checkSpelling, bind_of_ok (current_run s)]
  cases hkind : s.stream.current.kind with
  | problem problem => exact absurd hkind (h problem)
  | _ => rfl

theorem checkSpelling_run_problem {p : Problem} (h : s.stream.current.kind = .problem p) :
    checkSpelling s = .error (.lexical p s.stream.current) s := by
  rw [checkSpelling, bind_of_ok (current_run s), h]
  rfl

/-- A token that passes is not misspelled, and the state is left alone. -/
theorem checkSpelling_eq_ok {a : Unit} (h : checkSpelling s = .ok a s') :
    s' = s ∧ ∀ problem, s.stream.current.kind ≠ .problem problem := by
  have hspelled : ∀ problem, s.stream.current.kind ≠ .problem problem := by
    intro problem hproblem
    rw [checkSpelling_run_problem hproblem] at h
    cases h
  rw [checkSpelling_run hspelled] at h
  cases h
  exact ⟨rfl, hspelled⟩

theorem advance_run (h : ∀ problem, s.stream.advance.current.kind ≠ .problem problem) :
    advance s = .ok () ⟨s.stream.advance, s.arena⟩ := checkSpelling_run h

theorem eat_of_ne {t : Terminal} (h : s.stream.current.kind ≠ t.kind) : eat t s = .ok false s := by
  rw [eat, bind_of_ok (at?_run t s), beq_false_of_ne h]
  rfl

theorem eat_of_eq {t : Terminal} (h : s.stream.current.kind = t.kind)
    (hnext : ∀ p, s.stream.advance.current.kind ≠ .problem p) :
    eat t s = .ok true ⟨s.stream.advance, s.arena⟩ := by
  rw [eat, bind_of_ok (at?_run t s), h, beq_self_eq_true, if_pos rfl, bind_of_ok (advance_run hnext)]
  rfl

theorem expect_of_eq {t : Terminal} (h : s.stream.current.kind = t.kind)
    (hnext : ∀ p, s.stream.advance.current.kind ≠ .problem p) :
    expect t s = .ok () ⟨s.stream.advance, s.arena⟩ := by
  rw [expect, bind_of_ok (eat_of_eq h hnext)]
  rfl

/-- A terminal is taken only if it stands at the front, and otherwise the state is left alone. -/
theorem eat_eq_ok {t : Terminal} {b : Bool} (h : eat t s = .ok b s') :
    b = true ∧ s.stream.current.kind = t.kind ∧ s' = ⟨s.stream.advance, s.arena⟩ ∨
      b = false ∧ s' = s := by
  rw [eat, bind_of_ok (at?_run t s)] at h
  split at h
  next hfront =>
    obtain ⟨_, s₁, hadvance, h⟩ := bind_eq_ok h
    obtain ⟨rfl, _⟩ := checkSpelling_eq_ok hadvance
    cases h
    exact .inl ⟨rfl, eq_of_beq hfront, rfl⟩
  next =>
    cases h
    exact .inr ⟨rfl, rfl⟩

end Rule

namespace Expression

open Rule

/-! ### The words of a type -/

/-- The further words of a type are plain identifiers, and the value is where the last one ends. -/
theorem words_of_typeWords {stop stop' : Nat} {s s' : ParseState}
    (h : typeWords stop s = .ok stop' s') :
    ∃ words, s.stream.rest = words ++ s'.stream.rest ∧
      (∀ w ∈ words, w.kind = .identifier false) ∧ stop' = Token.lastStop stop words ∧
      s'.arena = s.arena := by
  refine iterate_induction (R := fun stop' s₁ => ∃ words,
    s.stream.rest = words ++ s₁.stream.rest ∧ (∀ w ∈ words, w.kind = .identifier false) ∧
      stop' = Token.lastStop stop words ∧ s₁.arena = s.arena) ?_ ?_ ?_ h
  · rintro stop₁ s₁ s₂ hwords hstep
    rw [bind_of_ok (current_run s₁), bind_of_ok (atPlainIdentifier_run s₁)] at hstep
    split at hstep
    next =>
      obtain ⟨_, _, _, hnone⟩ := bind_eq_ok hstep
      cases hnone
    next =>
      cases hstep
      exact hwords
  · rintro stop₁ s₁ stop₂ s₂ ⟨words, hrest, hplain, hstop, harena⟩ hstep
    rw [bind_of_ok (current_run s₁), bind_of_ok (atPlainIdentifier_run s₁)] at hstep
    split at hstep
    next hfront =>
      have hkind : s₁.stream.current.kind = .identifier false := eq_of_beq hfront
      obtain ⟨_, s₃, hadvance, hsome⟩ := bind_eq_ok hstep
      obtain ⟨rfl, _⟩ := checkSpelling_eq_ok hadvance
      cases hsome
      refine ⟨words ++ [s₁.stream.current], ?_, ?_, ?_, harena⟩
      · rw [hrest, Stream.rest_eq_cons (by rw [hkind]; exact Kind.noConfusion), List.append_assoc]
        rfl
      · intro w hw
        rcases List.mem_append.1 hw with hw | hw
        · exact hplain w hw
        · rwa [List.mem_singleton.1 hw]
      · exact (Token.lastStop_concat _ _ _).symm
    next => cases hstep
  · exact ⟨[], rfl, by simp, rfl, rfl⟩

/-- The words of a type are plain identifiers at the front, and its span runs over all of them. -/
theorem words_of_typeSpan {span : Span} {s s' : ParseState} (h : typeSpan s = .ok span s') :
    ∃ words, s.stream.rest = s.stream.current :: words ++ s'.stream.rest ∧
      (∀ w ∈ s.stream.current :: words, w.kind = .identifier false) ∧
      span = ⟨s.stream.current.span.start, Token.lastStop s.stream.current.span.stop words⟩ ∧
      s'.arena = s.arena := by
  rw [typeSpan, bind_of_ok (atPlainIdentifier_run s)] at h
  cases hfront : s.stream.current.kind == .identifier false with
  | false =>
    rw [hfront] at h
    cases h
  | true =>
    rw [hfront, require, if_pos rfl, pure_bind, bind_of_ok (current_run s)] at h
    have hkind : s.stream.current.kind = .identifier false := eq_of_beq hfront
    obtain ⟨_, s₁, hadvance, h⟩ := bind_eq_ok h
    obtain ⟨rfl, _⟩ := checkSpelling_eq_ok hadvance
    obtain ⟨stop, s₂, hwords, h⟩ := bind_eq_ok h
    cases h
    obtain ⟨words, hrest, hplain, rfl, harena⟩ := words_of_typeWords hwords
    refine ⟨words, ?_, List.forall_mem_cons.2 ⟨hkind, hplain⟩, rfl, harena⟩
    rw [Stream.rest_eq_cons (by rw [hkind]; exact Kind.noConfusion), List.cons_append, ← hrest]

end Expression

end TaggedSql
