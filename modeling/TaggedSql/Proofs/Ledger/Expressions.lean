import TaggedSql.Proofs.Ledger.Basic

/-!
# The account of expressions

If the rules one level deeper keep a ledger, so do the rules for expressions. A double-precision number
is added in one place only, for the token that it is read from.
-/

namespace TaggedSql.Ledger

open Rule Expression

variable {L : Ledger} {c : TaggedSql.Context}

/-! ### Types -/

theorem keeps_typeSize : L.Keeps [] typeSize fun id => [id] := by
  intro s others hs
  rw [typeSize, bind_of_ok (current_run s)]
  cases s.stream.current.kind with
  | integer n => exact result_pushAtom (.integer n) hs
  | _ => exact L.fail hs

theorem keeps_typeWords (stop : Nat) : L.Keeps [] (typeWords stop) fun _ => [] := by
  refine Keeps.iterate (g := fun _ => []) (fun _ => ?_) stop
  refine keeps_current.pass fun t => ?_
  refine .ifLook keeps_atPlainIdentifier ?_ (.done .rfl)
  exact keeps_advance.pass fun _ => .done .rfl

theorem keeps_typeSpan : L.Keeps [] typeSpan fun _ => [] := by
  refine keeps_atPlainIdentifier.pass fun b => ?_
  refine (keeps_require b _).pass fun _ => ?_
  refine keeps_current.pass fun first => ?_
  refine keeps_advance.pass fun _ => ?_
  exact (keeps_typeWords _).pass fun stop => .done .rfl

theorem keeps_typeScale : L.Keeps [] typeScale id := keeps_behind _ keeps_typeSize.single

theorem keeps_typeSizes (name : NodeId) : L.Keeps [name] (typeSizes name) fun id => [id] := by
  refine .ifEat ?_ (.done .rfl)
  refine (keeps_pushTag _).bind fun head => ?_
  refine keeps_typeSize.bind fun size => ?_
  refine keeps_typeScale.bind fun scale => ?_
  refine (keeps_expect _).pass fun _ => ?_
  exact keeps_pushList (.swap head name (size :: scale))

theorem keeps_typeName : L.Keeps [] typeName fun id => [id] := by
  intro s others hs
  rw [typeName_eq]
  have hspan := keeps_typeSpan s others hs
  cases hrun : typeSpan s with
  | error e s' =>
    rw [hrun] at hspan
    rw [bind_of_error hrun]
    exact hspan
  | ok span s' =>
    rw [hrun] at hspan
    rw [bind_of_ok hrun]
    -- The words have been taken when the name is added.
    obtain ⟨words, hrest, hplain, rfl, _⟩ := words_of_typeSpan hrun
    have hwords : s.stream.current :: words <:+: s.stream.rest := ⟨[], _, hrest.symm⟩
    have hdrawn := L.draw (.type hwords hplain) hs
    exact (keeps_push hdrawn).then keeps_typeSizes s' others hspan

/-! ### Names and calls -/

theorem keeps_qualifiedName : L.Keeps [] qualifiedName fun id => [id] := by
  refine (keeps_separatedBy _ keeps_identifier).then fun parts => ?_
  split
  next => exact .done .rfl
  next => exact keeps_pushList .rfl

theorem keeps_aggregateFilter (h : L.Context c) : L.Keeps [] (aggregateFilter c) id := by
  refine keeps_current.pass fun t => ?_
  refine (keeps_peek 1).pass fun t' => ?_
  dsimp only
  split
  next =>
    refine keeps_advance.pass fun _ => ?_
    refine keeps_advance.pass fun _ => ?_
    refine (keeps_expect _).pass fun _ => ?_
    refine h.expression.then fun condition => ?_
    refine (keeps_expect _).pass fun _ => ?_
    exact (keeps_tagged _ .rfl).single
  next => exact .done .rfl

theorem keeps_arguments (h : L.Context c) : L.Keeps [] (arguments c) id := by
  rw [arguments_eq]
  refine Keeps.then (.ifLook (keeps_at? _) (.done .rfl) h.expressions) fun items => ?_
  exact (keeps_expect _).pass fun _ => .done .rfl

theorem keeps_distinctMark : L.Keeps [] distinctMark fun _ => [] :=
  .ifEat (.done .rfl) ((keeps_eat _).pass fun _ => .done .rfl)

theorem keeps_distinctNode (distinct : Bool) : L.Keeps [] (distinctNode distinct) id := by
  cases distinct with
  | true => exact (keeps_pushTag _).single
  | false => exact .done .rfl

/-- The items of a call go into a list of their own, behind what heads the call. -/
theorem keeps_callNode (h : L.Context c) {name : Token} (hname : L.drawn (.name name.span))
    (distinct : Bool) (items : List NodeId) (aggregate : Option Tag) :
    L.Keeps items (callNode c name distinct items aggregate) fun id => [id] := by
  have hhead : ∀ {head function : NodeId} {mark : List NodeId},
      (items ++ [head] ++ [function] ++ mark).Perm ([head, function] ++ mark ++ items) := by
    intro head function mark
    have hcomm : (items ++ (head :: function :: mark)).Perm _ := List.perm_append_comm
    simpa using hcomm
  cases aggregate with
  | some t =>
    refine (keeps_pushTag _).bind fun head => ?_
    refine (keeps_pushTag _).bind fun function => ?_
    refine (keeps_distinctNode distinct).bind fun mark => ?_
    refine Keeps.perm ?_ hhead
    refine (keeps_pushList .rfl).on fun list => ?_
    refine (keeps_aggregateFilter h).bind fun filter => ?_
    exact keeps_pushList .rfl
  | none =>
    refine (keeps_pushTag _).bind fun head => ?_
    refine (keeps_push hname).bind fun function => ?_
    refine (keeps_distinctNode distinct).bind fun mark => ?_
    refine Keeps.perm ?_ hhead
    refine (keeps_pushList .rfl).on fun list => ?_
    exact keeps_pushList .rfl

theorem keeps_countNode (h : L.Context c) : L.Keeps [] (countNode c) fun id => [id] := by
  refine (keeps_expect _).pass fun _ => ?_
  refine (keeps_pushTag _).bind fun head => ?_
  refine (keeps_pushTag _).bind fun function => ?_
  refine (keeps_pushList .rfl).bind fun noItems => ?_
  refine (keeps_aggregateFilter h).bind fun filter => ?_
  exact keeps_pushList .rfl

/-- A call begins with its name, which is added behind the arguments. -/
theorem result_call (h : L.Context c) (quoted : Bool) {s : ParseState} {others : List NodeId}
    (hfront : s.stream.current.kind.isIdentifier = true) (hs : L.holds s (others ++ [])) :
    L.Result others (fun id => [id]) (call c quoted s) := by
  rw [call_eq, bind_of_ok (current_run s)]
  have hname := L.draw (.name s.stream.current_mem_rest hfront) hs
  generalize s.stream.current = name at hname ⊢
  refine (keeps_advance.pass fun _ => ?_) s others hs
  refine (keeps_expect _).pass fun _ => ?_
  have hstar : L.Keeps [] (countStar (namedAggregate? quoted name)) fun _ => [] := by
    rw [countStar]
    split
    next => exact keeps_eat _
    next => exact .done .rfl
  refine .ifLook hstar (keeps_countNode h) ?_
  refine keeps_distinctMark.pass fun distinct => ?_
  refine (keeps_arguments h).then fun items => ?_
  exact keeps_callNode h hname distinct items _

/-! ### Primaries -/

theorem keeps_caseExpression (h : L.Context c) :
    L.Keeps [] (caseExpression c) fun id => [id] := by
  rw [caseExpression_eq]
  have hoperand : L.Keeps [] (caseOperand c) id :=
    .ifLook (keeps_at? _) (.done .rfl) h.expression.single
  have hbranch : ∀ parts, L.Keeps parts (caseBranch c parts) fun o => o.getD parts := by
    intro parts
    refine .ifEat ?_ (.done .rfl)
    refine h.expression.bind fun condition => ?_
    refine (keeps_expect _).pass fun _ => ?_
    refine h.expression.bind fun result => ?_
    exact .done (.of_eq (by simp))
  have helse : L.Keeps [] (caseElse c) id := by
    refine keeps_behind _ (h.expression.then fun result => ?_)
    exact (keeps_tagged _ .rfl).single
  refine (keeps_expect _).pass fun _ => ?_
  refine (keeps_pushTag _).bind fun head => ?_
  refine hoperand.bind fun operand => ?_
  refine (keeps_at? _).pass fun b => ?_
  refine (keeps_require b _).pass fun _ => ?_
  refine (Keeps.iterate (g := id) hbranch []).bind fun branches => ?_
  refine helse.bind fun otherwise => ?_
  refine (keeps_expect _).pass fun _ => ?_
  exact keeps_pushList .rfl

theorem keeps_cast (h : L.Context c) : L.Keeps [] (cast c) fun id => [id] := by
  refine (keeps_expect _).pass fun _ => ?_
  refine (keeps_expect _).pass fun _ => ?_
  refine h.expression.bind fun operand => ?_
  refine (keeps_expect _).pass fun _ => ?_
  refine keeps_typeName.bind fun type => ?_
  refine (keeps_expect _).pass fun _ => ?_
  exact keeps_tagged _ .rfl

theorem keeps_existsQuery (h : L.Context c) : L.Keeps [] (existsQuery c) fun id => [id] := by
  refine keeps_advance.pass fun _ => ?_
  exact h.parenthesizedQuery.then fun query => keeps_tagged _ .rfl

theorem keeps_parenthesized (h : L.Context c) : L.Keeps [] (parenthesized c) fun id => [id] := by
  rw [parenthesized_eq]
  refine keeps_advance.pass fun _ => ?_
  have hinner : L.Keeps [] (enclosed c) fun id => [id] :=
    .ifLook keeps_atQuery (h.query.then fun query => keeps_tagged _ .rfl) h.expression
  refine hinner.then fun inner => ?_
  exact (keeps_expect _).pass fun _ => .done .rfl

theorem result_parameter (named : Bool) {t : Token} {s : ParseState} {others : List NodeId}
    (hahead : t ∈ s.stream.rest) (ht : t.kind = .parameter named)
    (hs : L.holds s (others ++ [])) :
    L.Result others (fun id => [id]) (parameter named t.span s) := by
  have hkeeps : L.Keeps [] (parameter named t.span) fun id => [id] := by
    refine keeps_advance.pass fun _ => ?_
    cases named with
    | true => exact (keeps_push (L.draw (.parameter hahead ht) hs)).then fun _ => keeps_tagged _ .rfl
    | false => exact keeps_tagged _ .rfl
  exact hkeeps s others hs

/-- What stands before the parts of a name: a call or the name itself. -/
theorem result_named (h : L.Context c) (quoted : Bool) {s : ParseState} {others : List NodeId}
    (hfront : s.stream.current.kind.isIdentifier = true) (hs : L.holds s (others ++ [])) :
    L.Result others (fun id => [id]) ((do
      if (← peek 1).kind == .symbol .leftParen then call c quoted else qualifiedName : Rule NodeId)
        s) := by
  rw [bind_of_ok (peek_run 1 s)]
  split
  next => exact result_call h quoted hfront hs
  next => exact keeps_qualifiedName s others hs

theorem keeps_primary (h : L.Context c) : L.Keeps [] (primary c) fun id => [id] := by
  intro s others hs
  rw [primary, bind_of_ok (current_run s)]
  -- A number of double precision is taken with its node.
  have hfloat : ∀ x, s.stream.current.kind.float? L.policy = some x →
      L.Result others (fun id => [id]) (pushAtom (.float x) s) := by
    intro x hx
    rw [List.append_nil] at hs
    exact result_float hx hs
  have hahead := s.stream.current_mem_rest
  generalize hfront : s.stream.current = t at hfloat hahead ⊢
  obtain ⟨kind, span, text⟩ := t
  cases kind with
  | integer n => exact result_pushAtom (.integer n) hs
  | leastMagnitude =>
    show L.Result others _ (leastMagnitude c.policy _ s)
    rw [h.policy]
    cases hpolicy : L.policy with
    | promote =>
      refine hfloat _ ?_
      rw [hpolicy]
      rfl
    | reject => exact L.fail hs
  | float x => exact hfloat x rfl
  | string => exact result_pushAtom (.string hahead rfl) hs
  | blob => exact result_pushAtom (.blob hahead rfl) hs
  | identifier quoted => exact result_named h quoted (by rw [hfront]; rfl) hs
  | parameter named => exact result_parameter named hahead rfl hs
  | endOfInput => exact L.fail hs
  | problem p => exact L.fail hs
  | symbol x =>
    cases x with
    | leftParen => exact keeps_parenthesized h s others hs
    | _ => exact L.fail hs
  | word w =>
    cases w with
    | CASE => exact keeps_caseExpression h s others hs
    | CAST => exact keeps_cast h s others hs
    | EXISTS => exact keeps_existsQuery h s others hs
    | NULL | TRUE | FALSE | CURRENT_DATE | CURRENT_TIME | CURRENT_TIMESTAMP =>
      exact result_pushAtom (.tag _) hs
    | _ => exact L.fail hs

/-! ### Operators -/

theorem keeps_operand (h : L.Context c) : L.Keeps [] (operand c) fun id => [id] := by
  refine keeps_current.pass fun t => ?_
  refine (keeps_peek 1).pass fun t' => ?_
  split
  next => exact keeps_advance.pass fun _ _ _ => result_pushAtom (.integer _)
  next =>
    split
    next => exact keeps_advance.pass fun _ => (h.enter _).then fun inner => keeps_tagged _ .rfl
    next => exact keeps_primary h

theorem keeps_negatedNode (negated : Bool) (node : NodeId) :
    L.Keeps [node] (negatedNode negated node) fun id => [id] := by
  cases negated with
  | true => exact keeps_tagged _ .rfl
  | false => exact .done .rfl

theorem keeps_inList (h : L.Context c) (left : NodeId) :
    L.Keeps [left] (inList c left) fun id => [id] := by
  refine (keeps_expect _).pass fun _ => ?_
  refine (keeps_expect _).pass fun _ => ?_
  refine .ifLook keeps_atQuery ?_ ?_
  · refine h.query.bind fun query => ?_
    exact (keeps_expect _).pass fun _ => keeps_tagged _ .rfl
  · refine (keeps_arguments h).bind fun items => ?_
    exact (keeps_pushList .rfl).on fun list => keeps_tagged _ .rfl

/-- A binary operator uses its left operand up. -/
theorem keeps_application (h : L.Context c) (left : NodeId) (power : Nat)
    (operator : BinaryOperator) :
    L.Keeps [left] (application c left power operator) fun id => [id] := by
  cases operator with
  | plain tag =>
    refine keeps_advance.pass fun _ => ?_
    exact (h.enter _).bind fun right => keeps_tagged _ .rfl
  | isSame =>
    rw [application, isSame_eq]
    refine (keeps_expect _).pass fun _ => ?_
    refine (keeps_eat _).pass fun negated => ?_
    refine (h.enter _).bind fun right => ?_
    exact (keeps_tagged _ .rfl).then (keeps_negatedNode negated)
  | inList => exact keeps_inList h left
  | between =>
    refine (keeps_expect _).pass fun _ => ?_
    refine (h.enter _).bind fun low => ?_
    refine (keeps_expect _).pass fun _ => ?_
    exact (h.enter _).bind fun high => keeps_tagged _ .rfl
  | like =>
    refine (keeps_expect _).pass fun _ => ?_
    refine (h.enter _).bind fun pattern => ?_
    refine .ifEat ?_ (keeps_tagged _ .rfl)
    exact (h.enter _).bind fun escape => keeps_tagged _ .rfl

theorem keeps_extend (h : L.Context c) (power : Nat) (left : NodeId) :
    L.Keeps [left] (extend c power left) fun o => [o.getD left] := by
  rw [extend_eq]
  refine keeps_current.pass fun t => ?_
  refine (keeps_peek 1).pass fun t' => ?_
  dsimp only
  split
  next => exact .done .rfl
  next operator own _ =>
    split
    next => exact .done .rfl
    next =>
      have hpass : ∀ negated, L.Keeps [] (passNot negated) fun _ => [] := by
        intro negated
        cases negated with
        | true => exact keeps_advance
        | false => exact .done .rfl
      refine (hpass _).pass fun _ => ?_
      refine (keeps_application h left _ operator).then fun predicate => ?_
      exact (keeps_negatedNode _ predicate).then fun id => .done .rfl

theorem keeps_expression (h : L.Context c) (power : Nat) :
    L.Keeps [] (expression c power) fun id => [id] :=
  (keeps_operand h).then (Keeps.iterate (keeps_extend h power))

end TaggedSql.Ledger
