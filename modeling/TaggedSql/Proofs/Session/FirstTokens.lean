import TaggedSql.Proofs.Plan.Locality
import TaggedSql.Proofs.Token.Order

/-!
# Text behind a failure

What stands behind the token at which a source fails has no influence on the failure, apart from the
two tokens that follow: a source that begins with the same tokens, up to these two, fails in the same
way.

* `Token.Same`, `BeginsAlike`: the tokens that two sources have in common;
* `peek_eq_of_beginsAlike`: their streams then show the same tokens;
* `single_of_other_source`: a failure depends on the tokens of a source only;
* `parse_error_of_beginsAlike`: the failure stays the same.
-/

namespace TaggedSql

open Rule Statement Lockstep

/-- Two tokens of two sources agree in their kinds, their spans and the texts of their spans. -/
structure Token.Same (source source' : String) (t u : Token) : Prop where
  kind : t.kind = u.kind
  span : t.span = u.span
  text : t.span.slice source = u.span.slice source'

/-- The second source has the tokens of the first up to a number, or all of them if there are fewer. -/
def BeginsAlike (policy : OverflowPolicy) (n : Nat) (source source' : String) : Prop :=
  ∀ i ≤ n, ∀ t, (tokenize policy source)[i]? = some t →
    ∃ u, (tokenize policy source')[i]? = some u ∧ Token.Same source source' t u

variable {policy : OverflowPolicy} {source source' : String} {settings : Settings}

/-! ### Tokens and streams -/

/-- The numbers of tokens are places in the stream. -/
theorem getElem?_tokenize {i : Nat} (h : i ≤ (Stream.ofSource policy source).ahead.length) :
    (tokenize policy source)[i]? = some ((Stream.ofSource policy source).peek i) := by
  rw [tokenize_eq, Stream.peek]
  rcases Nat.lt_or_eq_of_le h with hlt | rfl
  · rw [List.getElem?_append_left hlt, List.getElem?_eq_getElem hlt]
    rfl
  · rw [List.getElem?_concat_length, List.getElem?_eq_none (Nat.le_refl _)]
    rfl

theorem le_length_of_getElem?_tokenize {i : Nat} {t : Token}
    (h : (tokenize policy source)[i]? = some t) :
    i ≤ (Stream.ofSource policy source).ahead.length := by
  obtain ⟨hlt, _⟩ := List.getElem?_eq_some_iff.1 h
  rw [tokenize_eq, List.length_append] at hlt
  exact Nat.le_of_lt_succ hlt

/-- Behind the last token the end stands. -/
theorem Stream.peek_min_length (s : Stream) (n : Nat) : s.peek (min n s.ahead.length) = s.peek n := by
  rcases Nat.le_total n s.ahead.length with hle | hle
  · rw [Nat.min_eq_left hle]
  · rw [Nat.min_eq_right hle, peek, peek, List.getElem?_eq_none (Nat.le_refl _),
      List.getElem?_eq_none hle]

theorem Token.Same.eq {t u : Token} (h : Token.Same source source' t u)
    (ht : t ∈ tokenize policy source) (hu : u ∈ tokenize policy source') : t = u := by
  have htext := h.text
  rw [slice_of_mem_tokenize ht, slice_of_mem_tokenize hu] at htext
  cases t
  cases u
  cases h.kind
  cases h.span
  cases htext
  rfl

/-- A token that two sources have in common stands at the same place of their streams. -/
theorem BeginsAlike.getElem? {n i : Nat} (h : BeginsAlike policy n source source') (hi : i ≤ n)
    (hlength : i ≤ (Stream.ofSource policy source).ahead.length) :
    (tokenize policy source')[i]? = some ((Stream.ofSource policy source).peek i) := by
  have hget := getElem?_tokenize hlength
  obtain ⟨u, hu, hsame⟩ := h i hi _ hget
  rw [hu, hsame.eq (List.mem_of_getElem? hget) (List.mem_of_getElem? hu)]

/-- Sources whose first tokens are equal begin alike. -/
theorem beginsAlike_of_take_eq {n : Nat}
    (h : (tokenize policy source).take (n + 1) = (tokenize policy source').take (n + 1)) :
    BeginsAlike policy n source source' := by
  intro i hi t ht
  have hget := congrArg (·[i]?) h
  simp only [List.getElem?_take_of_lt (Nat.lt_succ_of_le hi)] at hget
  have hu := hget.symm.trans ht
  refine ⟨t, hu, rfl, rfl, ?_⟩
  rw [slice_of_mem_tokenize (List.mem_of_getElem? ht), slice_of_mem_tokenize (List.mem_of_getElem? hu)]

/-- The streams of sources that begin alike show the same tokens, and if all tokens of the first one
are meant, they do so everywhere. -/
theorem peek_eq_of_beginsAlike {n i : Nat} (h : BeginsAlike policy n source source')
    (hi : min i (Stream.ofSource policy source).ahead.length ≤ n) :
    (Stream.ofSource policy source).peek i = (Stream.ofSource policy source').peek i := by
  have hget := h.getElem? hi (Nat.min_le_right _ _)
  have hlength := le_length_of_getElem?_tokenize hget
  rw [getElem?_tokenize hlength, Option.some.injEq, Stream.peek_min_length] at hget
  rcases Nat.le_total i (Stream.ofSource policy source).ahead.length with hle | hle
  · rw [Nat.min_eq_left hle] at hget
    exact hget.symm
  · -- The first source ends before the place, so the second one ends there too.
    rw [Nat.min_eq_right hle] at hget hlength
    have hend : (Stream.ofSource policy source).peek i =
        Token.endAt (Stream.ofSource policy source).stop := by
      rw [Stream.peek, List.getElem?_eq_none hle]
      rfl
    have hlast : (Stream.ofSource policy source').ahead.length =
        (Stream.ofSource policy source).ahead.length := by
      refine Nat.le_antisymm (Nat.le_of_not_lt fun hlt => ?_) hlength
      have hmem : (Stream.ofSource policy source').peek (Stream.ofSource policy source).ahead.length ∈
          (Stream.ofSource policy source').ahead := by
        rw [Stream.peek, List.getElem?_eq_getElem hlt]
        exact List.getElem_mem hlt
      have hopen := isEnd_of_mem_ahead hmem
      rw [hget, hend] at hopen
      cases hopen
    rw [← hget, ← hlast, ← Stream.peek_min_length _ i, hlast, Nat.min_eq_right hle]

/-! ### Failures -/

theorem Failure.span_diagnostic (e : Failure) : e.diagnostic.span = e.token.span := by
  cases e with
  | lexical p t => rfl
  | tooDeep limit t => rfl
  | unexpected expectation t =>
    rw [Failure.diagnostic]
    split <;> rfl

/-- A failure depends on the tokens of a source only, not on the source itself. -/
theorem single_of_other_source (source' : String) {s s' : ParseState} {e : Failure}
    (h : single settings source s = .error e s') : ∃ s', single settings source' s = .error e s' := by
  have hmeet : (heedless settings.overflow).Meets s.stream s.stream :=
    Stream.Invariant.meet_self _ _ (fun _ => trivial) fun _ _ => trivial
  have hagrees : (heedless settings.overflow).Agrees s.stream s.stream (fun _ => false)
      ((heedless settings.overflow).Trees source source') (single settings source s)
      (single settings source' s) :=
    agrees_single whole_alone (contexts_heedless settings _) hmeet rfl (Nat.lt_succ_self _)
  rw [h] at hagrees
  generalize single settings source' s = r at hagrees ⊢
  cases hagrees with
  | excused hfalse => exact hfalse.elim
  | @failure _ f _ t' hsame _ _ _ =>
    cases hsame.1
    exact ⟨t', rfl⟩

/-- A source that begins with the tokens of another one, up to the second token behind the one at which
the other fails, fails in the same way. -/
theorem parse_error_of_beginsAlike (settings : Settings) (source source' : String) (e : Failure)
    (i : Nat) (t : Token) (h : parse settings source = .error e)
    (hnumber : (tokenize settings.overflow source)[i]? = some t)
    (hplace : e.diagnostic.span = t.span)
    (halike : BeginsAlike settings.overflow (i + 2) source source') :
    parse settings source' = .error e := by
  let S := Stream.ofSource settings.overflow source
  obtain ⟨s', hrun⟩ : ∃ s', single settings source ⟨S, {}⟩ = .error e s' := by
    rw [parse, Session.statement, Session.run] at h
    split at h
    next => cases h
    next e' s' hrun =>
      cases h
      exact ⟨s', hrun⟩
  obtain ⟨n, hsees⟩ := local_single settings source ⟨S, {}⟩
  -- The failure is at the token behind those that were taken, which is token number `i`.
  have htoken : e.token = S.peek n := by
    have htaken := hsees.taken
    rw [after_of_error hrun] at htaken
    rw [hsees.located e s' hrun, htaken, Stream.current, Stream.peek_iterate_advance, Nat.zero_add]
  have hi : i = min n S.ahead.length := by
    refine number_eq_of_span_eq hnumber (getElem?_tokenize (Nat.min_le_right _ _)) ?_
    rw [Stream.peek_min_length, ← hplace, e.span_diagnostic, htoken]
  have hagree : Stream.Agree (n + 3) S (Stream.ofSource settings.overflow source') := by
    intro j hj
    refine peek_eq_of_beginsAlike halike ?_
    show min j S.ahead.length ≤ i + 2
    omega
  have hother := hsees.eq _ hagree
  rw [hrun] at hother
  obtain ⟨s'', hsame⟩ := single_of_other_source source' hother
  show (Session.run _ (single settings source')).1 = _
  rw [Session.run, show (Session.start settings source').state =
    ⟨Stream.ofSource settings.overflow source', {}⟩ from rfl, hsame]

/-- A column is missing at token number 5. What follows the next two tokens is a string without an end,
and does not matter. -/
theorem parse_error_of_beginsAlike_unclosed :
    (tokenize .promote "SELECT t.*, ) x y")[5]? = some ⟨.symbol .rightParen, ⟨12, 13⟩, ")"⟩ ∧
      BeginsAlike .promote 7 "SELECT t.*, ) x y" "SELECT t.*, ) x y 'z" ∧
      parse {} "SELECT t.*, ) x y" =
        .error (.unexpected .expression ⟨.symbol .rightParen, ⟨12, 13⟩, ")"⟩) ∧
      parse {} "SELECT t.*, ) x y 'z" =
        .error (.unexpected .expression ⟨.symbol .rightParen, ⟨12, 13⟩, ")"⟩) := by
  have hnumber : (tokenize .promote "SELECT t.*, ) x y")[5]? =
      some ⟨.symbol .rightParen, ⟨12, 13⟩, ")"⟩ := by decide +kernel
  have halike : BeginsAlike .promote 7 "SELECT t.*, ) x y" "SELECT t.*, ) x y 'z" :=
    beginsAlike_of_take_eq (by decide +kernel)
  have hfails : parse {} "SELECT t.*, ) x y" =
      .error (.unexpected .expression ⟨.symbol .rightParen, ⟨12, 13⟩, ")"⟩) := by decide +kernel
  exact ⟨hnumber, halike, hfails,
    parse_error_of_beginsAlike {} _ _ _ 5 _ hfails hnumber rfl halike⟩

end TaggedSql
