import TaggedSql.Proofs.Grammar.Running
import TaggedSql.Proofs.Tree.Datum

/-!
# Operands of one token

Literals, names, parameters and constants are operands of a single token. What is read of a source that
has only one or two of them is followed here step by step, under either policy, also where it fails.

* `Kind.operand?`: what a token is as an operand;
* `Yields`: a rule takes tokens and gives a node with a datum;
* `yields_operand`: a token that is an operand is read as what it is;
* `yields_least`, `yields_negated`, `yields_difference`: a minus sign before an operand, and between two;
* `expression_out_of_range`, `difference_out_of_range`: the integer `2 ^ 63` under the rejecting policy.
-/

namespace TaggedSql

open Rule

/-! ### Operands -/

/-- Whether a token of the kind, right behind an operand, would be part of it or is misspelled. -/
def Kind.continuesOperand : Kind → Bool
  | .problem _ | .symbol .leftParen | .symbol .dot => true
  | _ => false

/-- What a token with the text is as an operand, if it is one by itself. -/
def Kind.operand? (policy : OverflowPolicy) (text : String) : Kind → Option Datum
  | .integer n => some (.integer n)
  | .leastMagnitude =>
    match policy with
    | .promote => some (.float Binary64.twoPow63)
    | .reject => none
  | .float x => some (.float x)
  | .string => some (.string text)
  | .blob => some (.blob text)
  | .identifier _ => some (.name text)
  | .parameter true => some (.tagged .parameter [.name text])
  | .parameter false => some (.tagged .parameter [])
  | k => k.constant?.map .tag

theorem Kind.ne_of_continuesOperand {k l : Kind} (hk : k.continuesOperand = false)
    (hl : l.continuesOperand = true) : k ≠ l := by
  rintro rfl
  rw [hl] at hk
  cases hk

open Arena

/-- From the state a rule takes all tokens but some, and gives a node with a datum. -/
def Yields (source : String) (x : Rule NodeId) (s : ParseState) (left : List Token) (d : Datum) :
    Prop :=
  ∃ id B, x s = .ok id ⟨⟨left, s.stream.stop⟩, B⟩ ∧ s.arena.Grows B ∧ B.Shows source id d

section Operands

variable {source : String} {c : Context} {t m : Token} {ts : List Token} {stop : Nat} {A : Arena}
  {d : Datum}

theorem pushAtom_run (hnext : (Stream.mk ts stop).current.kind.continuesOperand = false)
    (node : Node) :
    pushAtom node ⟨⟨t :: ts, stop⟩, A⟩ = .ok A.size ⟨⟨ts, stop⟩, A.push node⟩ := by
  have hpush : push node ⟨⟨t :: ts, stop⟩, A⟩ = .ok A.size ⟨⟨t :: ts, stop⟩, A.push node⟩ := rfl
  have hadvance : advance ⟨⟨t :: ts, stop⟩, A.push node⟩ = .ok () ⟨⟨ts, stop⟩, A.push node⟩ :=
    advance_run fun p => Kind.ne_of_continuesOperand hnext rfl
  rw [pushAtom, bind_of_ok hpush, bind_of_ok hadvance]
  rfl

theorem yields_pushAtom (hnext : (Stream.mk ts stop).current.kind.continuesOperand = false)
    (node : Node) {f : Form} (hleaf : node.leaf? = some f) (hf : f.read source = d) :
    Yields source (pushAtom node) ⟨⟨t :: ts, stop⟩, A⟩ ts d :=
  ⟨_, _, pushAtom_run hnext node, grows_push hleaf, hf ▸ shows_push hleaf⟩

/-- A tag and the list that it heads, behind the nodes of its items. -/
theorem yields_tagged (ts : List Token) (stop : Nat) (hA : A.Sound) {ids : List NodeId}
    {ds : List Datum} (h : A.ShowsAll source ids ds) (tag : Tag) :
    Yields source (tagged tag ids) ⟨⟨ts, stop⟩, A⟩ ts (.tagged tag ds) := by
  have hgrows : A.Grows (A.push (.tag tag)) := grows_push rfl
  have hhead : (A.push (.tag tag)).Shows source A.size (.tag tag) := shows_push (f := .tag tag) rfl
  have hitems : (A.push (.tag tag)).ShowsAll source ids ds :=
    Stable.mono (K := fun a => a.ShowsAll source ids ds) hA hgrows h
  exact ⟨_, _, rfl, hgrows.trans grows_pushList,
    shows_pushList (hgrows.sound hA) (showsAll_cons.2 ⟨hhead, hitems⟩)⟩

theorem yields_qualifiedName (ht : t.kind.isIdentifier = true)
    (hslice : t.span.slice source = t.text)
    (hnext : (Stream.mk ts stop).current.kind.continuesOperand = false) :
    Yields source Expression.qualifiedName ⟨⟨t :: ts, stop⟩, A⟩ ts (.name t.text) := by
  have hidentifier : identifier ⟨⟨t :: ts, stop⟩, A⟩ =
      .ok A.size ⟨⟨ts, stop⟩, A.push (.name t.span)⟩ := by
    rw [identifier, bind_of_ok (current_run _)]
    show (if t.kind.isIdentifier = true then _ else _ : Rule NodeId) _ = _
    rw [if_pos ht]
    exact pushAtom_run hnext _
  have hdot : eat (.symbol .dot) ⟨⟨ts, stop⟩, A.push (.name t.span)⟩ =
      .ok false ⟨⟨ts, stop⟩, A.push (.name t.span)⟩ :=
    eat_of_ne (Kind.ne_of_continuesOperand hnext rfl)
  have hparts : separatedBy (.symbol .dot) identifier ⟨⟨t :: ts, stop⟩, A⟩ =
      .ok [A.size] ⟨⟨ts, stop⟩, A.push (.name t.span)⟩ := by
    rw [separatedBy, bind_of_ok hidentifier]
    exact iterate_of_none (bind_of_ok hdot)
  refine ⟨A.size, A.push (.name t.span), ?_, grows_push rfl, ?_⟩
  · rw [Expression.qualifiedName, bind_of_ok hparts]
    rfl
  · rw [← hslice]
    exact shows_push (f := .name t.span) rfl

theorem yields_parameter (named : Bool) (hslice : t.span.slice source = t.text)
    (hnext : (Stream.mk ts stop).current.kind.continuesOperand = false) (hA : A.Sound) :
    Yields source (Expression.parameter named t.span) ⟨⟨t :: ts, stop⟩, A⟩ ts
      (.tagged .parameter (if named then [.name t.text] else [])) := by
  have hadvance : advance ⟨⟨t :: ts, stop⟩, A⟩ = .ok () ⟨⟨ts, stop⟩, A⟩ :=
    advance_run fun p => Kind.ne_of_continuesOperand hnext rfl
  cases named with
  | false =>
    obtain ⟨id, B, hrun, hgrows, hshows⟩ :=
      yields_tagged ts stop hA (showsAll_nil : A.ShowsAll source [] []) .parameter
    refine ⟨id, B, ?_, hgrows, hshows⟩
    rw [Expression.parameter, bind_of_ok hadvance]
    exact hrun
  | true =>
    have hgrows : A.Grows (A.push (.name t.span)) := grows_push rfl
    have hname : (A.push (.name t.span)).Shows source A.size (.name t.text) :=
      hslice ▸ shows_push (f := .name t.span) rfl
    obtain ⟨id, B, hrun, hgrows', hshows⟩ :=
      yields_tagged ts stop (hgrows.sound hA) hname.single .parameter
    refine ⟨id, B, ?_, hgrows.trans hgrows', hshows⟩
    rw [Expression.parameter, bind_of_ok hadvance]
    exact hrun

/-- A token that is an operand by itself is read as one. -/
theorem yields_primary (hd : t.kind.operand? c.policy t.text = some d)
    (hslice : t.span.slice source = t.text)
    (hnext : (Stream.mk ts stop).current.kind.continuesOperand = false) (hA : A.Sound) :
    Yields source (Expression.primary c) ⟨⟨t :: ts, stop⟩, A⟩ ts d := by
  obtain ⟨kind, span, text⟩ := t
  cases kind with
  | integer n =>
    cases hd
    exact yields_pushAtom hnext (.integer n) rfl rfl
  | leastMagnitude =>
    obtain ⟨policy, enter⟩ := c
    cases policy with
    | reject => cases hd
    | promote =>
      cases hd
      exact yields_pushAtom hnext (.float Binary64.twoPow63) rfl rfl
  | float x =>
    cases hd
    exact yields_pushAtom hnext (.float x) rfl rfl
  | string =>
    cases hd
    exact yields_pushAtom hnext (.string span) rfl (congrArg Datum.string hslice)
  | blob =>
    cases hd
    exact yields_pushAtom hnext (.blob span) rfl (congrArg Datum.blob hslice)
  | identifier quoted =>
    cases hd
    obtain ⟨id, B, hname, hyields⟩ := yields_qualifiedName (A := A) (t := ⟨.identifier quoted, span, text⟩)
      rfl hslice hnext
    refine ⟨id, B, ?_, hyields⟩
    have hparen : ((Stream.mk (⟨.identifier quoted, span, text⟩ :: ts) stop).peek 1).kind ≠
        .symbol .leftParen := by
      rw [← Stream.peek_advance]
      exact Kind.ne_of_continuesOperand hnext rfl
    rw [Expression.primary, bind_of_ok (current_run _)]
    show (peek 1 >>= fun t => if t.kind == .symbol .leftParen then Expression.call c quoted
      else Expression.qualifiedName) _ = _
    rw [bind_of_ok (peek_run 1 _), beq_false_of_ne hparen]
    exact hname
  | parameter named =>
    have hparameter := yields_parameter (A := A) (t := ⟨.parameter named, span, text⟩) named hslice hnext hA
    cases named with
    | true =>
      cases hd
      exact hparameter
    | false =>
      cases hd
      exact hparameter
  | word w =>
    cases w with
    | NULL | TRUE | FALSE | CURRENT_DATE | CURRENT_TIME | CURRENT_TIMESTAMP =>
      cases hd
      exact yields_pushAtom hnext (.tag _) rfl rfl
    | _ => cases hd
  | symbol _ | endOfInput | problem _ => cases hd

/-! ### Expressions up to the end of a source -/

theorem operand_eq_primary (ht : t.kind.unary? = none) (A : Arena) :
    Expression.operand c ⟨⟨t :: ts, stop⟩, A⟩ = Expression.primary c ⟨⟨t :: ts, stop⟩, A⟩ := by
  have hunary : (Stream.mk (t :: ts) stop).current.kind.unary? = none := ht
  have hminus : (Stream.mk (t :: ts) stop).current.kind ≠ .symbol .minus := by
    intro h
    rw [h] at hunary
    cases hunary
  rw [Expression.operand, bind_of_ok (current_run _), bind_of_ok (peek_run 1 _),
    beq_false_of_ne hminus, hunary]
  rfl

theorem Kind.unary?_of_operand? {k : Kind} {policy : OverflowPolicy} {text : String}
    (h : k.operand? policy text = some d) : k.unary? = none := by
  cases k with
  | word w =>
    cases w with
    | NOT => cases h
    | _ => rfl
  | symbol s => cases h
  | _ => rfl

theorem yields_operand (hd : t.kind.operand? c.policy t.text = some d)
    (hslice : t.span.slice source = t.text)
    (hnext : (Stream.mk ts stop).current.kind.continuesOperand = false) (hA : A.Sound) :
    Yields source (Expression.operand c) ⟨⟨t :: ts, stop⟩, A⟩ ts d := by
  obtain ⟨id, B, hrun, hyields⟩ := yields_primary hd hslice hnext hA
  exact ⟨id, B, (operand_eq_primary (Kind.unary?_of_operand? hd) A).trans hrun, hyields⟩

/-- An operand at the end of a source is the whole expression. -/
theorem Yields.expression {s : ParseState} (h : Yields source (Expression.operand c) s [] d)
    (power : Nat) : Yields source (Expression.expression c power) s [] d := by
  obtain ⟨id, B, hrun, hyields⟩ := h
  refine ⟨id, B, ?_, hyields⟩
  rw [Expression.expression, bind_of_ok hrun]
  exact iterate_of_none rfl

/-- A minus sign before the integer `2 ^ 63` is part of it. -/
theorem yields_least (hm : m.kind = .symbol .minus) (ht : t.kind = .leastMagnitude) :
    Yields source (Expression.operand c) ⟨⟨[m, t], stop⟩, A⟩ [] (.integer Int64.minValue) := by
  have hadvance : advance ⟨⟨[m, t], stop⟩, A⟩ = .ok () ⟨⟨[t], stop⟩, A⟩ :=
    advance_run fun p hp => Kind.noConfusion (ht.symm.trans hp)
  have hatom : Yields source (pushAtom (.integer Int64.minValue)) ⟨⟨[t], stop⟩, A⟩ []
      (.integer Int64.minValue) := yields_pushAtom rfl _ rfl rfl
  obtain ⟨id, B, hrun, hyields⟩ := hatom
  refine ⟨id, B, ?_, hyields⟩
  rw [Expression.operand, bind_of_ok (current_run _), bind_of_ok (peek_run 1 _)]
  show (if (m.kind == .symbol .minus && t.kind == .leastMagnitude) = true then _ else _ :
    Rule NodeId) _ = _
  rw [hm, ht, if_pos (by decide), bind_of_ok hadvance]
  exact hrun

/-- A minus sign before another operand. -/
theorem yields_negated (hm : m.kind = .symbol .minus) (ht : t.kind ≠ .leastMagnitude)
    (hspelled : ∀ p, t.kind ≠ .problem p) (hA : A.Sound)
    (h : Yields source (c.enter (.expression 17)) ⟨⟨[t], stop⟩, A⟩ [] d) :
    Yields source (Expression.operand c) ⟨⟨[m, t], stop⟩, A⟩ [] (.tagged .minus [d]) := by
  have hadvance : advance ⟨⟨[m, t], stop⟩, A⟩ = .ok () ⟨⟨[t], stop⟩, A⟩ := advance_run hspelled
  obtain ⟨inner, B, hrun, hgrows, hshows⟩ := h
  obtain ⟨id, C, hrun', hgrows', hshows'⟩ :=
    yields_tagged [] stop (hgrows.sound hA) hshows.single .minus
  refine ⟨id, C, ?_, hgrows.trans hgrows', hshows'⟩
  have hunary : (Stream.mk [m, t] stop).current.kind.unary? = some (.minus, 17) := by
    show m.kind.unary? = _
    rw [hm]
    rfl
  have hleast : ((Stream.mk [m, t] stop).peek 1).kind ≠ .leastMagnitude := ht
  rw [Expression.operand, bind_of_ok (current_run _), bind_of_ok (peek_run 1 _),
    beq_false_of_ne hleast, Bool.and_false, hunary]
  show (advance >>= fun _ => _) _ = _
  rw [bind_of_ok hadvance, bind_of_ok hrun]
  exact hrun'

/-- What extends an operand by a minus sign and another operand. -/
theorem extend_minus (hm : m.kind = .symbol .minus) (hspelled : ∀ p, t.kind ≠ .problem p)
    (left : NodeId) :
    Expression.extend c 0 left ⟨⟨[m, t], stop⟩, A⟩ = (c.enter (.expression 12) >>= fun right =>
      tagged .minus [left, right] >>= fun id => pure (some id)) ⟨⟨[t], stop⟩, A⟩ := by
  have hadvance : advance ⟨⟨[m, t], stop⟩, A⟩ = .ok () ⟨⟨[t], stop⟩, A⟩ := advance_run hspelled
  obtain ⟨kind, span, text⟩ := m
  cases hm
  rw [Expression.extend_eq, bind_of_ok (current_run _), bind_of_ok (peek_run 1 _)]
  show (Expression.passNot false >>= fun _ => Expression.application c left 12 (.plain .minus) >>=
    fun predicate => Expression.negatedNode false predicate >>= fun id => pure (some id)) _ = _
  show ((advance >>= fun _ => c.enter (.expression 12) >>= fun right =>
    tagged .minus [left, right]) >>= fun predicate => pure (some predicate)) _ = _
  rw [bind_assoc, bind_of_ok hadvance, bind_assoc]

/-- A difference up to the end of a source. -/
theorem yields_difference {a : Token} {e : Datum} (hm : m.kind = .symbol .minus)
    (hspelled : ∀ p, t.kind ≠ .problem p) (hA : A.Sound)
    (ha : Yields source (Expression.operand c) ⟨⟨[a, m, t], stop⟩, A⟩ [m, t] e)
    (h : ∀ B : Arena, B.Sound →
      Yields source (c.enter (.expression 12)) ⟨⟨[t], stop⟩, B⟩ [] d) :
    Yields source (Expression.expression c 0) ⟨⟨[a, m, t], stop⟩, A⟩ [] (.tagged .minus [e, d]) := by
  obtain ⟨left, B, hleft, hgrows, hshows⟩ := ha
  have hB := hgrows.sound hA
  obtain ⟨right, C, hright, hgrows', hshows'⟩ := h B hB
  have hboth : C.ShowsAll source [left, right] [e, d] :=
    showsAll_cons.2 ⟨hshows.mono hB hgrows', hshows'.single⟩
  obtain ⟨id, D, hrun, hgrows'', hdifference⟩ :=
    yields_tagged [] stop (hgrows'.sound hB) hboth .minus
  refine ⟨id, D, ?_, (hgrows.trans hgrows').trans hgrows'', hdifference⟩
  have hextend : Expression.extend c 0 left ⟨⟨[m, t], stop⟩, B⟩ = .ok (some id) ⟨⟨[], stop⟩, D⟩ := by
    rw [extend_minus hm hspelled, bind_of_ok hright, bind_of_ok hrun]
    rfl
  have hless : (Stream.mk [] stop).size < (Stream.mk [m, t] stop).size := Nat.zero_lt_succ _
  rw [Expression.expression, bind_of_ok hleft, iterate_of_some hextend hless]
  exact iterate_of_none rfl

/-! ### The integer `2 ^ 63` under the rejecting policy -/

/-- Where the integer `2 ^ 63` is no operand, the expression fails at it. -/
theorem expression_out_of_range (ht : t.kind = .leastMagnitude) (hpolicy : c.policy = .reject)
    (power : Nat) :
    Expression.expression c power ⟨⟨t :: ts, stop⟩, A⟩ =
      .error (.lexical (.integerRange t.text.toList) t) ⟨⟨t :: ts, stop⟩, A⟩ := by
  have hprimary : Expression.primary c ⟨⟨t :: ts, stop⟩, A⟩ =
      .error (.lexical (.integerRange t.text.toList) t) ⟨⟨t :: ts, stop⟩, A⟩ := by
    obtain ⟨kind, span, text⟩ := t
    cases ht
    obtain ⟨policy, enter⟩ := c
    cases hpolicy
    rfl
  have hoperand := (operand_eq_primary (c := c) (by rw [ht]; rfl) A).trans hprimary
  exact bind_of_error hoperand

theorem difference_out_of_range {a : Token} {e : Datum} (hm : m.kind = .symbol .minus)
    (hspelled : ∀ p, t.kind ≠ .problem p)
    (ha : Yields source (Expression.operand c) ⟨⟨[a, m, t], stop⟩, A⟩ [m, t] e) {f : Failure}
    (h : ∀ B, ∃ s', c.enter (.expression 12) ⟨⟨[t], stop⟩, B⟩ = .error f s') :
    ∃ s', Expression.expression c 0 ⟨⟨[a, m, t], stop⟩, A⟩ = .error f s' := by
  obtain ⟨left, B, hleft, _⟩ := ha
  obtain ⟨s', hright⟩ := h B
  refine ⟨s', ?_⟩
  have hextend : Expression.extend c 0 left ⟨⟨[m, t], stop⟩, B⟩ = .error f s' := by
    rw [extend_minus hm hspelled]
    exact bind_of_error hright
  rw [Expression.expression, bind_of_ok hleft]
  exact iterate_of_error hextend

end Operands

end TaggedSql
