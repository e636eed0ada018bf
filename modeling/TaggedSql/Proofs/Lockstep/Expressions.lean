import TaggedSql.Proofs.Lockstep.Primitive

/-!
# Expressions in lockstep

If the rules one level deeper follow each other, so do the rules for expressions. All of them take a
token before they lead deeper, so what is asked of the deeper rules is asked for fewer tokens only.

* `Contexts`: the rules one level deeper follow each other;
* `follows_typeName`, `follows_call`, `follows_primary`, `follows_extend`: the parts of expressions;
* `follows_expression`: expressions follow each other.
-/

namespace TaggedSql

namespace Lockstep

open Rule Expression

/-- The rules one level deeper follow each other as long as fewer than `m` tokens are ahead, and one
less for a source in parentheses. -/
structure Contexts (L : Lockstep) (c d : Context) (m : Nat) : Prop where
  left : c.policy = L.left
  right : d.policy = L.right
  expression : ∀ power, L.Follows m (fun _ => false) (c.enter (.expression power))
    (d.enter (.expression power)) L.node
  query : L.Follows m (fun _ => true) c.query d.query L.node
  tableSource : L.Follows (m - 1) (fun _ => false) (c.enter .tableSource) (d.enter .tableSource)
    L.node

variable {L : Lockstep} {F : Stream → Prop} {c d : Context} {m n : Nat}

theorem Contexts.expressions (h : L.Contexts c d m) :
    L.Follows m (fun _ => false) c.expressions d.expressions (List.Forall₂ L.node) :=
  Follows.commaSeparated (h.expression 0)

theorem Contexts.requiredQuery (h : L.Contexts c d m) :
    L.Follows m (fun _ => false) c.requiredQuery d.requiredQuery L.node := by
  refine FollowsFrom.atQuery fun b => ?_
  cases b with
  | false => exact FollowsFrom.unexpected
  | true => exact h.query.forget

theorem Contexts.parenthesizedQuery (h : L.Contexts c d m) :
    L.Follows (m + 1) (fun _ => false) c.parenthesizedQuery d.parenthesizedQuery L.node := by
  refine FollowsFrom.after (.expect rfl) fun _ _ _ => ?_
  refine FollowsFrom.then h.requiredQuery fun _ _ hquery => ?_
  refine FollowsFrom.then (.expect rfl) fun _ _ _ => ?_
  exact FollowsFrom.done hquery rfl

/-- Two tokens are of one kind, or a statement ends at both. -/
theorem Tokens.open_or_closed {t u : Token} (h : L.Tokens t u) :
    t.kind.closes = false ∧ u.kind = t.kind ∨
      (t.kind = .symbol .semicolon ∨ t.kind = .endOfInput) ∧
        (u.kind = .symbol .semicolon ∨ u.kind = .endOfInput) := by
  cases hopen : t.kind.closes with
  | false => exact .inl ⟨rfl, (h.alike.eq_of_open hopen).symm⟩
  | true => exact .inr ⟨Kind.closes_iff.1 hopen, Kind.closes_iff.1 (h.alike.closes_eq ▸ hopen)⟩

/-! ### Types -/

theorem follows_typeSize : L.Follows n (fun _ => false) typeSize typeSize L.node := by
  refine FollowsFrom.current fun t u htu => ?_
  rcases htu.open_or_closed with ⟨hopen, hu⟩ | ⟨ht | ht, hu | hu⟩
  · rw [hu]
    cases ht : t.kind with
    | integer x =>
      refine (FollowsFrom.pushAtom (fun s hs => ?_) (.integer x)).forget
      rw [hs.2]
      exact hopen
    | _ => exact FollowsFrom.unexpected
  all_goals
    rw [ht, hu]
    exact FollowsFrom.unexpected

/-- The last words of a type end at corresponding places. -/
theorem follows_typeWords {stop stop' : Nat}
    (h : ∃ a b, L.span a b ∧ stop = a.stop ∧ stop' = b.stop) :
    L.Follows n (fun _ => false) (typeWords stop) (typeWords stop')
      fun stop stop' => ∃ a b, L.span a b ∧ stop = a.stop ∧ stop' = b.stop := by
  refine Follows.iterate (fun _ _ _ => ?_) h
  refine FollowsFrom.current fun t u htu => ?_
  refine FollowsFrom.atPlainIdentifier fun b => ?_
  cases b with
  | false => exact FollowsFrom.done .none rfl
  | true =>
    refine FollowsFrom.know (p := t.kind.closes = false) (fun s hs => ?_) fun hopen => ?_
    · rw [← hs.1.2, eq_of_beq hs.2]
      rfl
    refine FollowsFrom.after (.advance fun s hs => ?_) fun _ _ _ => ?_
    · rw [hs.1.2]
      exact hopen
    · exact FollowsFrom.done (.some ⟨_, _, htu.span hopen, rfl, rfl⟩) rfl

theorem follows_typeSpan : L.Follows n (fun _ => false) typeSpan typeSpan L.span := by
  refine FollowsFrom.atPlainIdentifier fun b => ?_
  cases b with
  | false => exact FollowsFrom.unexpected_bind
  | true =>
    rw [require, if_pos rfl, pure_bind]
    refine FollowsFrom.current fun t u htu => ?_
    refine FollowsFrom.know (p := t.kind.closes = false) (fun s hs => ?_) fun hopen => ?_
    · rw [← hs.2, eq_of_beq hs.1.2]
      rfl
    refine FollowsFrom.after (.advance fun s hs => ?_) fun _ _ _ => ?_
    · rw [hs.2]
      exact hopen
    refine FollowsFrom.then (follows_typeWords ⟨_, _, htu.span hopen, rfl, rfl⟩) ?_
    rintro _ _ ⟨a, b, hab, rfl, rfl⟩
    exact FollowsFrom.done (L.join (htu.span hopen) hab) rfl

theorem follows_typeName : L.Follows n (fun _ => false) typeName typeName L.node := by
  rw [typeName_eq]
  refine FollowsFrom.then follows_typeSpan fun _ _ hspan => ?_
  refine FollowsFrom.then (.push (.name hspan)) fun _ _ hname => ?_
  refine FollowsFrom.ifEat rfl ?_ (.done hname rfl)
  refine FollowsFrom.then (.pushTag _) fun _ _ hhead => ?_
  refine FollowsFrom.then follows_typeSize fun _ _ hsize => ?_
  refine FollowsFrom.thenAll ?_ fun _ _ hscale => ?_
  · refine FollowsFrom.behind rfl ?_
    exact FollowsFrom.then follows_typeSize fun _ _ hsize => .done (.cons hsize .nil) rfl
  refine FollowsFrom.then (.expect rfl) fun _ _ _ => ?_
  exact FollowsFrom.pushList (.cons hhead (.cons hname (.cons hsize hscale)))

/-! ### Names and calls -/

theorem follows_qualifiedName :
    L.Follows n (fun _ => false) qualifiedName qualifiedName L.node := by
  refine FollowsFrom.then (Follows.separatedBy rfl .identifier) fun parts parts' hparts => ?_
  cases hparts with
  | nil => exact FollowsFrom.pushList .nil
  | cons hfirst hmore =>
    cases hmore with
    | nil => exact FollowsFrom.done hfirst rfl
    | cons hsecond hmore => exact FollowsFrom.pushList (.cons hfirst (.cons hsecond hmore))

theorem follows_aggregateFilter (h : L.Contexts c d m) :
    L.Follows (m + 1) (fun _ => false) (aggregateFilter c) (aggregateFilter d)
      (List.Forall₂ L.node) := by
  refine FollowsFrom.current fun t u htu => ?_
  refine FollowsFrom.peekSecond (fun s hs => hs.2) fun t' u' halike => ?_
  have hopens : (t.kind == .identifier false
        && t.text.toList.map Char.toLower == ['f', 'i', 'l', 't', 'e', 'r']
        && t'.kind == .symbol .leftParen) =
      (u.kind == .identifier false
        && u.text.toList.map Char.toLower == ['f', 'i', 'l', 't', 'e', 'r']
        && u'.kind == .symbol .leftParen) := by
    rcases htu.open_or_closed with ⟨hopen, hu⟩ | ⟨ht | ht, hu | hu⟩
    · rw [hu, htu.text hopen, (halike hopen).beq_eq rfl]
    all_goals
      rw [ht, hu]
      rfl
  dsimp only
  rw [← hopens]
  split
  next hif =>
    simp only [Bool.and_eq_true, beq_iff_eq] at hif
    refine FollowsFrom.advanceTo (G := fun s => s.current.kind.closes = false) (fun s hs => ?_)
      (fun s hs => ?_) ?_
    · rw [hs.1.2, hif.1.1]
      rfl
    · rw [s.current_advance, hs.2, hif.2]
      rfl
    refine FollowsFrom.after (.advance fun _ hs => hs) fun _ _ _ => ?_
    refine FollowsFrom.then (.expect rfl) fun _ _ _ => ?_
    refine FollowsFrom.then (Follows.mono (h.expression 0) (Nat.sub_le _ _)) fun _ _ hcondition => ?_
    refine FollowsFrom.then (.expect rfl) fun _ _ _ => ?_
    refine FollowsFrom.then (.tagged _ (.cons hcondition .nil)) fun _ _ hclause => ?_
    exact FollowsFrom.done (.cons hclause .nil) rfl
  next => exact FollowsFrom.done .nil rfl

theorem follows_arguments (h : L.Contexts c d m) :
    L.Follows m (fun _ => false) (arguments c) (arguments d) (List.Forall₂ L.node) := by
  rw [arguments_eq, arguments_eq]
  refine FollowsFrom.thenAll ?_ fun _ _ hitems => ?_
  · refine FollowsFrom.at? rfl fun b => ?_
    cases b with
    | true => exact FollowsFrom.done .nil rfl
    | false => exact Follows.from h.expressions
  · refine FollowsFrom.then (.expect rfl) fun _ _ _ => ?_
    exact FollowsFrom.done hitems rfl

theorem follows_distinctMark : L.Follows n (fun _ => false) distinctMark distinctMark Eq := by
  refine FollowsFrom.ifEat rfl (.done rfl rfl) ?_
  exact FollowsFrom.then (.eat rfl) fun _ _ _ => .done rfl rfl

theorem follows_distinctNode (distinct : Bool) :
    L.Follows n (fun _ => false) (distinctNode distinct) (distinctNode distinct)
      (List.Forall₂ L.node) := by
  cases distinct with
  | true => exact FollowsFrom.then (.pushTag _) fun _ _ hmark => .done (.cons hmark .nil) rfl
  | false => exact FollowsFrom.done .nil rfl

theorem calledAggregate?_of_length_eq {aggregate : Option Tag} {items items' : List NodeId}
    (h : items.length = items'.length) :
    calledAggregate? aggregate items = calledAggregate? aggregate items' := by
  rw [calledAggregate?, calledAggregate?, h]

theorem follows_callNode (h : L.Contexts c d m) {t u : Token} (hspan : L.span t.span u.span)
    (distinct : Bool) {items items' : List NodeId} (hitems : List.Forall₂ L.node items items')
    (aggregate : Option Tag) :
    L.Follows (m + 1) (fun _ => false) (callNode c t distinct items aggregate)
      (callNode d u distinct items' aggregate) L.node := by
  cases aggregate with
  | some tag =>
    refine FollowsFrom.then (.pushTag _) fun _ _ hhead => ?_
    refine FollowsFrom.then (.pushTag _) fun _ _ hfunction => ?_
    refine FollowsFrom.then (follows_distinctNode distinct) fun _ _ hmark => ?_
    refine FollowsFrom.then (.pushList hitems) fun _ _ hlist => ?_
    refine FollowsFrom.then (follows_aggregateFilter h) fun _ _ hfilter => ?_
    refine FollowsFrom.pushList (List.rel_append (List.rel_append (List.rel_append ?_ hmark) ?_) hfilter)
    · exact .cons hhead (.cons hfunction .nil)
    · exact .cons hlist .nil
  | none =>
    refine FollowsFrom.then (.pushTag _) fun _ _ hhead => ?_
    refine FollowsFrom.then (.push (.name hspan)) fun _ _ hfunction => ?_
    refine FollowsFrom.then (follows_distinctNode distinct) fun _ _ hmark => ?_
    refine FollowsFrom.then (.pushList hitems) fun _ _ hlist => ?_
    refine FollowsFrom.pushList (List.rel_append (List.rel_append ?_ hmark) (.cons hlist .nil))
    exact .cons hhead (.cons hfunction .nil)

theorem follows_countNode (h : L.Contexts c d m) :
    L.Follows (m + 1) (fun _ => false) (countNode c) (countNode d) L.node := by
  refine FollowsFrom.then (.expect rfl) fun _ _ _ => ?_
  refine FollowsFrom.then (.pushTag _) fun _ _ hhead => ?_
  refine FollowsFrom.then (.pushTag _) fun _ _ hfunction => ?_
  refine FollowsFrom.then (.pushList .nil) fun _ _ hlist => ?_
  refine FollowsFrom.then (follows_aggregateFilter h) fun _ _ hfilter => ?_
  exact FollowsFrom.pushList (.cons hhead (.cons hfunction (.cons hlist hfilter)))

theorem follows_countStar (aggregate : Option Tag) :
    L.Follows n (fun _ => false) (countStar aggregate) (countStar aggregate) Eq := by
  rw [countStar]
  split
  next => exact (FollowsFrom.eat rfl).forget
  next => exact FollowsFrom.done rfl rfl

/-- A call at a name. -/
theorem follows_call (h : L.Contexts c d m) (quoted : Bool)
    (hF : ∀ s, F s → s.current.kind.closes = false) :
    L.FollowsFrom F (m + 1) (fun _ => false) (call c quoted) (call d quoted) L.node := by
  rw [call_eq, call_eq]
  refine FollowsFrom.current fun t u htu => ?_
  refine FollowsFrom.know (p := t.kind.closes = false) (fun s hs => hs.2 ▸ hF s hs.1) fun hopen => ?_
  have hname : namedAggregate? quoted t = namedAggregate? quoted u := by
    rw [namedAggregate?, namedAggregate?, htu.text hopen]
  rw [← hname]
  refine FollowsFrom.after (.advance fun s hs => hF s hs.1) fun _ _ _ => ?_
  refine FollowsFrom.then (.expect rfl) fun _ _ _ => ?_
  refine FollowsFrom.then (follows_countStar _) ?_
  rintro countsRows _ rfl
  cases countsRows with
  | true => exact Follows.mono (follows_countNode h) (Nat.le_succ m)
  | false =>
    refine FollowsFrom.then follows_distinctMark ?_
    rintro distinct _ rfl
    refine FollowsFrom.then (follows_arguments h) fun items items' hitems => ?_
    rw [calledAggregate?_of_length_eq hitems.length_eq]
    exact Follows.mono (follows_callNode h (htu.span hopen) distinct hitems _) (Nat.le_succ m)

/-! ### Primaries -/

theorem follows_caseExpression (h : L.Contexts c d m) :
    L.Follows (m + 1) (fun _ => false) (caseExpression c) (caseExpression d) L.node := by
  rw [caseExpression_eq, caseExpression_eq]
  refine FollowsFrom.after (.expect rfl) fun _ _ _ => ?_
  refine FollowsFrom.then (.pushTag _) fun _ _ hhead => ?_
  refine FollowsFrom.thenAll ?_ fun _ _ hoperand => ?_
  · refine FollowsFrom.at? rfl fun b => ?_
    cases b with
    | true => exact FollowsFrom.done .nil rfl
    | false =>
      exact Follows.from (FollowsFrom.then (h.expression 0) fun _ _ he => .done (.cons he .nil) rfl)
  refine FollowsFrom.at? rfl fun b => ?_
  cases b with
  | false => exact FollowsFrom.unexpected_bind
  | true =>
    refine Follows.from ?_
    refine FollowsFrom.thenAll ?_ fun _ _ hbranches => ?_
    · refine Follows.iterate (fun parts parts' hparts => ?_) .nil
      refine FollowsFrom.ifEat rfl ?_ (.done .none rfl)
      refine FollowsFrom.then (Follows.mono (h.expression 0) (Nat.sub_le _ _)) fun _ _ hif => ?_
      refine FollowsFrom.then (.expect rfl) fun _ _ _ => ?_
      refine FollowsFrom.then (Follows.mono (h.expression 0) (Nat.sub_le _ _)) fun _ _ hthen => ?_
      exact FollowsFrom.done (.some (List.rel_append hparts (.cons hif (.cons hthen .nil)))) rfl
    refine FollowsFrom.thenAll ?_ fun _ _ hotherwise => ?_
    · refine FollowsFrom.behind rfl ?_
      refine FollowsFrom.then (Follows.mono (h.expression 0) (Nat.sub_le _ _)) fun _ _ he => ?_
      refine FollowsFrom.then (.tagged _ (.cons he .nil)) fun _ _ helse => ?_
      exact FollowsFrom.done (.cons helse .nil) rfl
    refine FollowsFrom.then (.expect rfl) fun _ _ _ => ?_
    exact FollowsFrom.pushList
      (List.rel_append (List.rel_append (.cons hhead hoperand) hbranches) hotherwise)

theorem follows_cast (h : L.Contexts c d m) :
    L.Follows (m + 1) (fun _ => false) (cast c) (cast d) L.node := by
  refine FollowsFrom.after (.expect rfl) fun _ _ _ => ?_
  refine FollowsFrom.then (.expect rfl) fun _ _ _ => ?_
  refine FollowsFrom.then (h.expression 0) fun _ _ hoperand => ?_
  refine FollowsFrom.then (.expect rfl) fun _ _ _ => ?_
  refine FollowsFrom.then follows_typeName fun _ _ htype => ?_
  refine FollowsFrom.then (.expect rfl) fun _ _ _ => ?_
  exact FollowsFrom.tagged _ (.cons hoperand (.cons htype .nil))

theorem follows_existsQuery (h : L.Contexts c d m)
    (hF : ∀ s, F s → s.current.kind.closes = false) :
    L.FollowsFrom F (m + 1) (fun _ => false) (existsQuery c) (existsQuery d) L.node := by
  refine FollowsFrom.after (.advance hF) fun _ _ _ => ?_
  refine FollowsFrom.then (Follows.mono h.parenthesizedQuery (Nat.le_succ m)) fun _ _ hquery => ?_
  exact FollowsFrom.tagged _ (.cons hquery .nil)

theorem follows_parenthesized (h : L.Contexts c d m)
    (hF : ∀ s, F s → s.current.kind.closes = false) :
    L.FollowsFrom F (m + 1) (fun _ => false) (parenthesized c) (parenthesized d) L.node := by
  rw [parenthesized_eq, parenthesized_eq]
  refine FollowsFrom.after (.advance hF) fun _ _ _ => ?_
  refine FollowsFrom.then (V := L.node) (k := fun _ => false) ?_ fun _ _ hinner => ?_
  · refine FollowsFrom.atQuery fun b => ?_
    cases b with
    | true => exact FollowsFrom.then h.query fun _ _ hquery => .tagged _ (.cons hquery .nil)
    | false => exact h.expression 0
  · refine FollowsFrom.then (.expect rfl) fun _ _ _ => ?_
    exact FollowsFrom.done hinner rfl

theorem follows_parameter (named : Bool) {a b : Span} (h : L.span a b)
    (hF : ∀ s, F s → s.current.kind.closes = false) :
    L.FollowsFrom F n (fun _ => false) (parameter named a) (parameter named b) L.node := by
  refine FollowsFrom.after (.advance hF) fun _ _ _ => ?_
  cases named with
  | false => exact FollowsFrom.tagged _ .nil
  | true =>
    refine FollowsFrom.then (.push (.name h)) fun _ _ hname => ?_
    exact FollowsFrom.tagged _ (.cons hname .nil)

theorem follows_leastMagnitude {t u : Token} (htu : L.Tokens t u) (ht : t.kind = .leastMagnitude)
    (hF : ∀ s, F s → s.current = t) :
    L.FollowsFrom F n (fun _ => false) (leastMagnitude L.left t) (leastMagnitude L.right u)
      L.node := by
  cases hleft : L.left with
  | promote =>
    rw [L.promote hleft]
    refine (FollowsFrom.pushAtom (fun s hs => ?_) (.float _)).forget
    rw [hF s hs, ht]
    rfl
  | reject =>
    rcases htu.range hleft ht with hexcused | ⟨hright, hfailure⟩
    · intro s t _ _ _
      exact .excused hexcused
    · rw [hright]
      exact FollowsFrom.fail (.inr hfailure)

theorem follows_primary (h : L.Contexts c d m) :
    L.FollowsFrom F (m + 1) (fun _ => false) (primary c) (primary d) L.node := by
  refine FollowsFrom.current fun t u htu => ?_
  rcases htu.open_or_closed with ⟨hopen, hu⟩ | ⟨ht | ht, hu | hu⟩
  · have hfront : ∀ s : Stream, F s ∧ s.current = t → s.current.kind.closes = false := by
      intro s hs
      rw [hs.2]
      exact hopen
    have hspan := htu.span hopen
    rw [hu]
    cases ht : t.kind with
    | integer x => exact (FollowsFrom.pushAtom hfront (.integer x)).forget
    | leastMagnitude =>
      show L.FollowsFrom _ _ _ (leastMagnitude c.policy t) (leastMagnitude d.policy u) _
      rw [h.left, h.right]
      exact follows_leastMagnitude htu ht fun s hs => hs.2
    | float x => exact (FollowsFrom.pushAtom hfront (.float x)).forget
    | string => exact (FollowsFrom.pushAtom hfront (.string hspan)).forget
    | blob => exact (FollowsFrom.pushAtom hfront (.blob hspan)).forget
    | identifier quoted =>
      refine FollowsFrom.peekSecond (fun s hs => hs.2) fun t' u' halike => ?_
      rw [← (halike hopen).beq_eq rfl]
      split
      next => exact follows_call h quoted fun s hs => hfront s hs.1
      next => exact Follows.from follows_qualifiedName
    | parameter named => exact follows_parameter named hspan hfront
    | symbol s =>
      cases s with
      | leftParen => exact follows_parenthesized h hfront
      | _ => exact FollowsFrom.unexpected
    | word w =>
      cases w with
      | CASE => exact Follows.from (follows_caseExpression h)
      | CAST => exact Follows.from (follows_cast h)
      | EXISTS => exact follows_existsQuery h hfront
      | NULL | TRUE | FALSE | CURRENT_DATE | CURRENT_TIME | CURRENT_TIMESTAMP =>
        exact (FollowsFrom.pushAtom hfront (.tag _)).forget
      | _ => exact FollowsFrom.unexpected
    | endOfInput => exact FollowsFrom.unexpected
    | problem p => exact FollowsFrom.unexpected
  all_goals
    rw [ht, hu]
    exact FollowsFrom.unexpected

/-! ### Operators -/

theorem follows_operand (h : L.Contexts c d m) :
    L.Follows (m + 1) (fun _ => false) (operand c) (operand d) L.node := by
  refine FollowsFrom.current fun t u htu => ?_
  refine FollowsFrom.peekSecond (fun s hs => hs.2) fun t' u' halike => ?_
  have hleast : (t.kind == .symbol .minus && t'.kind == .leastMagnitude) =
      (u.kind == .symbol .minus && u'.kind == .leastMagnitude) := by
    rcases htu.open_or_closed with ⟨hopen, hu⟩ | ⟨ht | ht, hu | hu⟩
    · rw [hu, (halike hopen).beq_eq rfl]
    all_goals
      rw [ht, hu]
      rfl
  have hunary : t.kind.unary? = u.kind.unary? := htu.alike.test _ rfl
  rw [← hleast, ← hunary]
  split
  next hif =>
    simp only [Bool.and_eq_true, beq_iff_eq] at hif
    refine FollowsFrom.advanceTo (G := fun s => s.current.kind.closes = false) (fun s hs => ?_)
      (fun s hs => ?_) (FollowsFrom.pushAtom (fun _ hs => hs) (.integer _)).forget
    · rw [hs.1.2, hif.1]
      rfl
    · rw [s.current_advance, hs.2, hif.2]
      rfl
  next =>
    cases hoperator : t.kind.unary? with
    | none => exact follows_primary h
    | some operator =>
      refine FollowsFrom.after (.advance fun s hs => ?_) fun _ _ _ => ?_
      · rw [hs.1.2, Bool.eq_false_iff]
        intro hclosed
        rcases Kind.closes_iff.1 hclosed with ht | ht <;> rw [ht] at hoperator <;> cases hoperator
      refine FollowsFrom.then (h.expression _) fun _ _ hinner => ?_
      exact FollowsFrom.tagged _ (.cons hinner .nil)

theorem follows_negatedNode (negated : Bool) {id id' : NodeId} (h : L.node id id') :
    L.Follows n (fun _ => false) (negatedNode negated id) (negatedNode negated id') L.node := by
  cases negated with
  | true => exact FollowsFrom.tagged _ (.cons h .nil)
  | false => exact FollowsFrom.done h rfl

variable {left left' : NodeId} {power : Nat}

theorem follows_isSame (h : L.Contexts c d m) (hleft : L.node left left') :
    L.Follows (m + 1) (fun _ => true) (isSame c left power) (isSame d left' power) L.node := by
  rw [isSame_eq, isSame_eq]
  refine FollowsFrom.after (.expect rfl) fun _ _ _ => ?_
  refine FollowsFrom.then (.eat rfl) ?_
  rintro negated _ rfl
  refine FollowsFrom.then (h.expression power) fun _ _ hright => ?_
  refine FollowsFrom.then (.tagged _ (.cons hleft (.cons hright .nil))) fun _ _ hsame => ?_
  exact follows_negatedNode negated hsame

theorem follows_inList (h : L.Contexts c d m) (hleft : L.node left left') :
    L.Follows (m + 1) (fun _ => true) (inList c left) (inList d left') L.node := by
  refine FollowsFrom.after (.expect rfl) fun _ _ _ => ?_
  refine FollowsFrom.then (.expect rfl) fun _ _ _ => ?_
  refine FollowsFrom.atQuery fun b => ?_
  cases b with
  | true =>
    refine FollowsFrom.then h.query fun _ _ hquery => ?_
    refine FollowsFrom.then (.expect rfl) fun _ _ _ => ?_
    exact FollowsFrom.tagged _ (.cons hleft (.cons hquery .nil))
  | false =>
    refine FollowsFrom.thenAll (follows_arguments h) fun _ _ hitems => ?_
    refine FollowsFrom.then (.pushList hitems) fun _ _ hlist => ?_
    exact FollowsFrom.tagged _ (.cons hleft (.cons hlist .nil))

theorem follows_between (h : L.Contexts c d m) (hleft : L.node left left') :
    L.Follows (m + 1) (fun _ => true) (between c left power) (between d left' power) L.node := by
  refine FollowsFrom.after (.expect rfl) fun _ _ _ => ?_
  refine FollowsFrom.then (h.expression power) fun _ _ hlow => ?_
  refine FollowsFrom.then (.expect rfl) fun _ _ _ => ?_
  refine FollowsFrom.then (h.expression power) fun _ _ hhigh => ?_
  exact FollowsFrom.tagged _ (.cons hleft (.cons hlow (.cons hhigh .nil)))

theorem follows_like (h : L.Contexts c d m) (hleft : L.node left left') :
    L.Follows (m + 1) (fun _ => true) (like c left power) (like d left' power) L.node := by
  refine FollowsFrom.after (.expect rfl) fun _ _ _ => ?_
  refine FollowsFrom.then (h.expression power) fun _ _ hpattern => ?_
  refine FollowsFrom.ifEat rfl ?_ (.tagged _ (.cons hleft (.cons hpattern .nil)))
  refine FollowsFrom.then (Follows.mono (h.expression power) (Nat.sub_le _ _)) fun _ _ hescape => ?_
  exact FollowsFrom.tagged _ (.cons hleft (.cons hpattern (.cons hescape .nil)))

/-- An operator at the front and what follows it. -/
theorem follows_application (h : L.Contexts c d m) (hleft : L.node left left')
    (operator : BinaryOperator) (hF : ∀ s, F s → s.current.kind.closes = false) :
    L.FollowsFrom F (m + 1) (fun _ => true) (application c left power operator)
      (application d left' power operator) L.node := by
  cases operator with
  | isSame => exact Follows.from (follows_isSame h hleft)
  | inList => exact Follows.from (follows_inList h hleft)
  | between => exact Follows.from (follows_between h hleft)
  | like => exact Follows.from (follows_like h hleft)
  | plain tag =>
    refine FollowsFrom.after (.advance hF) fun _ _ _ => ?_
    refine FollowsFrom.then (h.expression power) fun _ _ hright => ?_
    exact FollowsFrom.tagged tag (.cons hleft (.cons hright .nil))

theorem closes_of_binary? {kind : Kind} {operator : BinaryOperator × Nat}
    (h : kind.binary? = some operator) : kind.closes = false := by
  rw [Bool.eq_false_iff]
  intro hclosed
  rcases Kind.closes_iff.1 hclosed with rfl | rfl <;> cases h

/-- An operator that has been found, behind `NOT` if it is negated, extends both expressions. -/
theorem follows_extension (h : L.Contexts c d m) (hleft : L.node left left') (negated : Bool)
    (operator : BinaryOperator)
    (hF : ∀ s, F s → s.current.kind.closes = false ∧
      (negated = true → (s.peek 1).kind.closes = false)) :
    L.FollowsFrom F (m + 1) Option.isSome
      (do
        passNot negated
        let predicate ← application c left power operator
        return some (← negatedNode negated predicate))
      (do
        passNot negated
        let predicate ← application d left' power operator
        return some (← negatedNode negated predicate)) (Option.Rel L.node) := by
  cases negated with
  | false =>
    rw [passNot, if_neg Bool.false_ne_true, pure_bind, pure_bind]
    refine FollowsFrom.after (follows_application h hleft operator fun s hs => (hF s hs).1)
      fun _ _ hpredicate => ?_
    exact FollowsFrom.then (follows_negatedNode false hpredicate) fun _ _ hnode =>
      .done (.some hnode) rfl
  | true =>
    rw [passNot, if_pos rfl]
    refine FollowsFrom.advanceTo (G := fun s => s.current.kind.closes = false)
      (fun s hs => (hF s hs).1) (fun s hs => s.current_advance ▸ (hF s hs).2 rfl) ?_
    have hoperator : L.FollowsFrom (fun s => s.current.kind.closes = false) m (fun _ => true)
        (application c left power operator) (application d left' power operator) L.node :=
      (follows_application h hleft operator fun _ hs => hs).weaken (fun _ => id) (Nat.le_succ m)
        (fun _ => id) fun _ _ => id
    refine FollowsFrom.then hoperator fun _ _ hpredicate => ?_
    exact FollowsFrom.then (follows_negatedNode true hpredicate) fun _ _ hnode =>
      .done (.some hnode) rfl

theorem follows_extend (h : L.Contexts c d m) (hleft : L.node left left') :
    L.Follows (m + 1) Option.isSome (extend c power left) (extend d power left')
      (Option.Rel L.node) := by
  rw [extend_eq, extend_eq]
  refine FollowsFrom.current fun t u htu => ?_
  refine FollowsFrom.peekSecond (fun s hs => hs.2) fun t' u' halike => ?_
  have hnegated : (t.kind == .word .NOT && t'.kind.isNegatable) =
      (u.kind == .word .NOT && u'.kind.isNegatable) := by
    rcases htu.open_or_closed with ⟨hopen, hu⟩ | ⟨ht | ht, hu | hu⟩
    · rw [hu, (halike hopen).isNegatable_eq]
    all_goals
      rw [ht, hu]
      rfl
  have hbinary : (if t.kind == .word .NOT && t'.kind.isNegatable then t'.kind else t.kind).binary? =
      (if t.kind == .word .NOT && t'.kind.isNegatable then u'.kind else u.kind).binary? := by
    split
    next hif =>
      simp only [Bool.and_eq_true, beq_iff_eq] at hif
      have hopen : t.kind.closes = false := by rw [hif.1]; rfl
      rw [(halike hopen).eq_of_isNegatable hif.2]
    next => exact htu.alike.test _ rfl
  dsimp only
  rw [← hnegated, ← hbinary]
  cases hfound : (if t.kind == .word .NOT && t'.kind.isNegatable then t'.kind else t.kind).binary? with
  | none => exact FollowsFrom.done .none rfl
  | some found =>
    obtain ⟨operator, own⟩ := found
    dsimp only
    by_cases hpower : own < power
    · rw [if_pos hpower, if_pos hpower]
      exact FollowsFrom.done .none rfl
    · rw [if_neg hpower, if_neg hpower]
      refine follows_extension h hleft _ operator fun s hs => ?_
      rw [hs.1.2, hs.2]
      cases hif : t.kind == .word .NOT && t'.kind.isNegatable with
      | true =>
        rw [hif] at hfound
        simp only [Bool.and_eq_true, beq_iff_eq] at hif
        exact ⟨by rw [hif.1]; rfl, fun _ => closes_of_binary? hfound⟩
      | false =>
        rw [hif] at hfound
        exact ⟨closes_of_binary? hfound, fun h => nomatch h⟩

/-- Expressions follow each other if the rules one level deeper do. -/
theorem follows_expression (h : L.Contexts c d m) (power : Nat) :
    L.Follows (m + 1) (fun _ => false) (expression c power) (expression d power) L.node := by
  refine FollowsFrom.then (follows_operand h) fun _ _ hfirst => ?_
  exact Follows.iterate (fun _ _ hleft => follows_extend h hleft) hfirst

end Lockstep

end TaggedSql
