import TaggedSql.Proofs.Lockstep.Expressions

/-!
# Queries and statements in lockstep

If the rules one level deeper follow each other, so do the rules for queries, for sources in
parentheses and for statements.

* `follows_query`, `follows_tableSource`: the other rules that may enclose each other;
* `follows_body`: each rule behind an entry follows itself, for one token more than the rules one
  level deeper do;
* `follows_statement`: statements follow each other.
-/

namespace TaggedSql

namespace Lockstep

open Rule Query

variable {L : Lockstep} {c d : Context} {m n : Nat}

theorem closes_of_word? {kind : Kind} {w : Word} (h : kind.word? = some w) :
    kind.closes = false := by
  rw [Kind.eq_word_of_word? h]
  rfl

/-- A reserved word that stands at the front in both runs is taken. -/
theorem FollowsFrom.advanceWord {F : Stream → Prop} {w : Word} :
    L.FollowsFrom (fun s => F s ∧ s.current.kind.word? = some w) n (fun _ => true) Rule.advance
      Rule.advance fun _ _ => True :=
  .advance fun _ hs => closes_of_word? hs.2

/-! ### Names and aliases -/

theorem follows_tableName : L.Follows n (fun _ => false) tableName tableName L.node := by
  refine FollowsFrom.then .identifier fun _ _ hfirst => ?_
  refine FollowsFrom.ifEat rfl ?_ (.done hfirst rfl)
  refine FollowsFrom.then .identifier fun _ _ hname => ?_
  exact FollowsFrom.pushList (.cons hfirst (.cons hname .nil))

theorem follows_alias? : L.Follows n (fun _ => false) alias? alias? (Option.Rel L.node) := by
  refine FollowsFrom.ifEat rfl ?_ ?_
  · exact FollowsFrom.then .identifier fun _ _ hname => .done (.some hname) rfl
  · refine FollowsFrom.current fun t u htu => ?_
    have hkind : t.kind.isIdentifier = u.kind.isIdentifier := htu.alike.test _ rfl
    rw [← hkind]
    split
    next =>
      exact FollowsFrom.then .identifier fun _ _ hname => .done (.some hname) rfl
    next => exact FollowsFrom.done .none rfl

theorem follows_withAlias {id id' : NodeId} (h : L.node id id') :
    L.Follows n (fun _ => false) (withAlias id) (withAlias id') L.node := by
  refine FollowsFrom.then follows_alias? fun o o' ho => ?_
  cases ho with
  | none => exact FollowsFrom.done h rfl
  | some hname => exact FollowsFrom.tagged _ (.cons h (.cons hname .nil))

theorem follows_columnNames : L.Follows n (fun _ => false) columnNames columnNames L.node := by
  refine FollowsFrom.then (.expect rfl) fun _ _ _ => ?_
  refine FollowsFrom.then (.pushTag _) fun _ _ hhead => ?_
  refine FollowsFrom.thenAll Follows.identifiers fun _ _ hnames => ?_
  refine FollowsFrom.then (.expect rfl) fun _ _ _ => ?_
  exact FollowsFrom.pushList (.cons hhead hnames)

theorem follows_optionalColumnNames :
    L.Follows n (fun _ => false) optionalColumnNames optionalColumnNames (List.Forall₂ L.node) := by
  refine FollowsFrom.at? rfl fun b => ?_
  cases b with
  | false => exact FollowsFrom.done .nil rfl
  | true =>
    refine Follows.from ?_
    exact FollowsFrom.then follows_columnNames fun _ _ hnames => .done (.cons hnames .nil) rfl

/-! ### Clauses -/

/-- A word that stands for a tag. -/
theorem follows_mark (w : Word) (t : Tag) :
    L.Follows n (fun _ => false) (mark w t) (mark w t) (List.Forall₂ L.node) := by
  refine FollowsFrom.behind rfl ?_
  exact FollowsFrom.then (.pushTag t) fun _ _ hmark => .done (.cons hmark .nil) rfl

/-- A condition behind a word. -/
theorem follows_condition (h : L.Contexts c d m) (w : Word) (t : Tag) :
    L.Follows m (fun _ => false) (condition w t c) (condition w t d) (List.Forall₂ L.node) := by
  refine FollowsFrom.behind rfl ?_
  refine FollowsFrom.then (Follows.mono (h.expression 0) (Nat.sub_le m 1)) fun _ _ he => ?_
  exact FollowsFrom.then (.tagged t (.cons he .nil)) fun _ _ hclause =>
    .done (.cons hclause .nil) rfl

theorem follows_groupByClause (h : L.Contexts c d m) :
    L.Follows m (fun _ => false) (groupByClause c) (groupByClause d) (List.Forall₂ L.node) := by
  rw [groupByClause_eq, groupByClause_eq]
  refine FollowsFrom.behind rfl ?_
  refine FollowsFrom.then (.expect rfl) fun _ _ _ => ?_
  refine FollowsFrom.then (.pushTag _) fun _ _ hhead => ?_
  refine FollowsFrom.thenAll (Follows.mono h.expressions (Nat.sub_le m 1)) fun _ _ hkeys => ?_
  exact FollowsFrom.then (.pushList (.cons hhead hkeys)) fun _ _ hclause =>
    .done (.cons hclause .nil) rfl

theorem follows_orderingTerm (h : L.Contexts c d m) :
    L.Follows m (fun _ => false) (orderingTerm c) (orderingTerm d) L.node := by
  refine FollowsFrom.then (h.expression 0) fun _ _ hkey => ?_
  refine FollowsFrom.currentWord? fun w => ?_
  cases w with
  | none => exact FollowsFrom.done hkey rfl
  | some w =>
    cases w with
    | ASC | DESC =>
      exact FollowsFrom.after .advanceWord fun _ _ _ => .tagged _ (.cons hkey .nil)
    | _ => exact FollowsFrom.done hkey rfl

theorem follows_orderByClause (h : L.Contexts c d m) :
    L.Follows (m + 1) (fun _ => false) (orderByClause c) (orderByClause d)
      (List.Forall₂ L.node) := by
  rw [orderByClause_eq, orderByClause_eq]
  refine FollowsFrom.behind rfl ?_
  refine FollowsFrom.then (.expect rfl) fun _ _ _ => ?_
  refine FollowsFrom.then (.pushTag _) fun _ _ hhead => ?_
  refine FollowsFrom.thenAll (Follows.commaSeparated (follows_orderingTerm h)) fun _ _ hterms => ?_
  exact FollowsFrom.then (.pushList (.cons hhead hterms)) fun _ _ hclause =>
    .done (.cons hclause .nil) rfl

theorem follows_limitClause (h : L.Contexts c d m) :
    L.Follows (m + 1) (fun _ => false) (limitClause c) (limitClause d) (List.Forall₂ L.node) := by
  have hbound : L.Follows (m - 1) (fun _ => false) c.expression d.expression L.node :=
    Follows.mono (h.expression 0) (Nat.sub_le m 1)
  refine FollowsFrom.ifEat rfl ?_ (.done .nil rfl)
  refine FollowsFrom.then (h.expression 0) fun _ _ hfirst => ?_
  refine FollowsFrom.ifEat rfl ?_ ?_
  · refine FollowsFrom.then hbound fun _ _ hcount => ?_
    refine FollowsFrom.then (.tagged _ (.cons hcount .nil)) fun _ _ hlimit => ?_
    refine FollowsFrom.then (.tagged _ (.cons hfirst .nil)) fun _ _ hoffset => ?_
    exact FollowsFrom.done (.cons hlimit (.cons hoffset .nil)) rfl
  refine FollowsFrom.ifEat rfl ?_ ?_
  · refine FollowsFrom.then hbound fun _ _ hskipped => ?_
    refine FollowsFrom.then (.tagged _ (.cons hfirst .nil)) fun _ _ hlimit => ?_
    refine FollowsFrom.then (.tagged _ (.cons hskipped .nil)) fun _ _ hoffset => ?_
    exact FollowsFrom.done (.cons hlimit (.cons hoffset .nil)) rfl
  · refine FollowsFrom.then (.tagged _ (.cons hfirst .nil)) fun _ _ hlimit => ?_
    exact FollowsFrom.done (.cons hlimit .nil) rfl

/-! ### Sources -/

theorem follows_joinOperator? :
    L.Follows n Option.isSome joinOperator? joinOperator? (Option.Rel Eq) := by
  refine FollowsFrom.currentWord? fun w => ?_
  cases w with
  | none => exact FollowsFrom.done .none rfl
  | some w =>
    cases w with
    | JOIN => exact FollowsFrom.after (.expect rfl) fun _ _ _ => .done (.some rfl) rfl
    | INNER | CROSS =>
      refine FollowsFrom.after .advanceWord fun _ _ _ => ?_
      exact FollowsFrom.then (.expect rfl) fun _ _ _ => .done (.some rfl) rfl
    | LEFT =>
      refine FollowsFrom.after .advanceWord fun _ _ _ => ?_
      refine FollowsFrom.then (.eat rfl) fun _ _ _ => ?_
      exact FollowsFrom.then (.expect rfl) fun _ _ _ => .done (.some rfl) rfl
    | _ => exact FollowsFrom.done .none rfl

theorem follows_tableReference (h : L.Contexts c d m) :
    L.Follows m (fun _ => false) (tableReference c) (tableReference d) L.node := by
  rw [tableReference_eq, tableReference_eq]
  refine FollowsFrom.then (V := L.node) (k := fun _ => false) ?_ fun _ _ htable =>
    follows_withAlias htable
  refine FollowsFrom.ifEat rfl ?_ follows_tableName
  refine FollowsFrom.then h.tableSource fun _ _ hinner => ?_
  exact FollowsFrom.then (.expect rfl) fun _ _ _ => .done hinner rfl

theorem follows_extendJoin (h : L.Contexts c d m) {left left' : NodeId}
    (hleft : L.node left left') :
    L.Follows m Option.isSome (extendJoin c left) (extendJoin d left') (Option.Rel L.node) := by
  refine FollowsFrom.bind follows_joinOperator? fun o o' ho => ?_
  cases ho with
  | none => exact ⟨m, _, Nat.le_add_right _ _, fun _ => .inr, .done .none rfl⟩
  | @some kind _ hkind =>
    subst hkind
    refine ⟨m, fun _ => false, Nat.le_add_right _ _, fun _ _ => .inl rfl, ?_⟩
    refine FollowsFrom.then (follows_tableReference h) fun _ _ hright => ?_
    refine FollowsFrom.then (.pushTag _) fun _ _ hhead => ?_
    refine FollowsFrom.then (.pushTag _) fun _ _ hmark => ?_
    refine FollowsFrom.thenAll (joinCondition_eq ▸ follows_condition h .ON .onClause)
      fun _ _ hcondition => ?_
    have hitems := List.Forall₂.cons hhead (.cons hmark (.cons hleft (.cons hright hcondition)))
    exact FollowsFrom.then (.pushList hitems) fun _ _ hjoin => .done (.some hjoin) rfl

theorem follows_joinSource (h : L.Contexts c d m) :
    L.Follows m (fun _ => false) (joinSource c) (joinSource d) L.node := by
  refine FollowsFrom.then (follows_tableReference h) fun _ _ hfirst => ?_
  exact Follows.iterate (fun _ _ hleft => follows_extendJoin h hleft) hfirst

/-- Sources in parentheses follow each other if the rules one level deeper do. A query among them may
begin right away. -/
theorem follows_tableSource (h : L.Contexts c d m) :
    L.Follows m (fun _ => false) (tableSource c) (tableSource d) L.node := by
  refine FollowsFrom.atQuery fun b => ?_
  cases b with
  | true => exact h.query.forget
  | false => exact follows_joinSource h

/-! ### Select cores -/

theorem follows_resultColumn (h : L.Contexts c d m) :
    L.Follows m (fun _ => false) (resultColumn c) (resultColumn d) L.node := by
  refine FollowsFrom.ifEat rfl (FollowsFrom.pushTag _) ?_
  refine FollowsFrom.current fun t u htu => ?_
  refine FollowsFrom.peekSecond (fun s hs => hs.2) fun t' u' halike => ?_
  refine FollowsFrom.peekThird (fun s hs => ⟨hs.1.2, hs.2⟩) fun t'' u'' halike' => ?_
  have hall : (t.kind.isIdentifier && t'.kind == .symbol .dot && t''.kind == .symbol .star) =
      (u.kind.isIdentifier && u'.kind == .symbol .dot && u''.kind == .symbol .star) := by
    rcases htu.open_or_closed with ⟨hopen, hu⟩ | ⟨ht | ht, hu | hu⟩
    · rw [hu, ← (halike hopen).beq_eq rfl]
      by_cases hdot : t'.kind = .symbol .dot
      · rw [(halike' hopen hdot).beq_eq rfl]
      · rw [beq_false_of_ne hdot, Bool.and_false, Bool.false_and, Bool.false_and]
    all_goals
      rw [ht, hu]
      rfl
  rw [← hall]
  split
  next hif =>
    simp only [Bool.and_eq_true, beq_iff_eq] at hif
    obtain ⟨⟨_, hdot⟩, hstar⟩ := hif
    refine FollowsFrom.identifierTo
      (G := fun s => s.current.kind = .symbol .dot ∧ (s.peek 1).kind = .symbol .star)
      (fun s hs => ?_) fun _ _ htable => ?_
    · rw [s.current_advance, s.peek_advance, hs.1.2, hs.2]
      exact ⟨hdot, hstar⟩
    refine FollowsFrom.advanceTo (G := fun s => s.current.kind = .symbol .star)
      (fun s hs => by rw [hs.1]; rfl) (fun s hs => s.current_advance ▸ hs.2) ?_
    refine FollowsFrom.advanceTo (G := fun _ => True) (fun s hs => by rw [hs]; rfl)
      (fun _ _ => trivial) ?_
    refine FollowsFrom.then (.pushTag _) fun _ _ hhead => ?_
    exact FollowsFrom.pushList (.cons hhead (.cons htable .nil))
  next =>
    refine Follows.from ?_
    exact FollowsFrom.then (h.expression 0) fun _ _ hcolumn => follows_withAlias hcolumn

theorem follows_rowMark : L.Follows n (fun _ => false) rowMark rowMark (List.Forall₂ L.node) := by
  refine FollowsFrom.ifEat rfl ?_ (follows_mark .ALL .allRows)
  exact FollowsFrom.then (.pushTag _) fun _ _ hmark => .done (.cons hmark .nil) rfl

theorem follows_fromClause (h : L.Contexts c d m) :
    L.Follows m (fun _ => false) (fromClause c) (fromClause d) (List.Forall₂ L.node) := by
  rw [fromClause_eq, fromClause_eq]
  refine FollowsFrom.behind rfl ?_
  refine FollowsFrom.then (.pushTag _) fun _ _ hhead => ?_
  have hsources := Follows.commaSeparated (follows_joinSource h)
  refine FollowsFrom.thenAll (Follows.mono hsources (Nat.sub_le m 1)) fun _ _ hsources => ?_
  exact FollowsFrom.then (.pushList (.cons hhead hsources)) fun _ _ hclause =>
    .done (.cons hclause .nil) rfl

theorem follows_valueRow (h : L.Contexts c d m) :
    L.Follows m (fun _ => false) (valueRow c) (valueRow d) L.node := by
  refine FollowsFrom.then (.expect rfl) fun _ _ _ => ?_
  refine FollowsFrom.thenAll h.expressions fun _ _ hrow => ?_
  refine FollowsFrom.then (.expect rfl) fun _ _ _ => ?_
  exact FollowsFrom.pushList hrow

theorem follows_valuesParts (h : L.Contexts c d m) :
    L.Follows (m + 1) (fun _ => true) (valuesParts c) (valuesParts d) (List.Forall₂ L.node) := by
  refine FollowsFrom.after (.expect rfl) fun _ _ _ => ?_
  refine FollowsFrom.then (.pushTag _) fun _ _ hhead => ?_
  refine FollowsFrom.thenAll (Follows.commaSeparated (follows_valueRow h)) fun _ _ hrows => ?_
  exact FollowsFrom.done (.cons hhead hrows) rfl

theorem follows_selectParts (h : L.Contexts c d m) :
    L.Follows (m + 1) (fun _ => true) (selectParts c) (selectParts d) (List.Forall₂ L.node) := by
  refine FollowsFrom.after (.expect rfl) fun _ _ _ => ?_
  refine FollowsFrom.then (.pushTag _) fun _ _ hhead => ?_
  refine FollowsFrom.thenAll follows_rowMark fun _ _ hmark => ?_
  refine FollowsFrom.thenAll (Follows.commaSeparated (follows_resultColumn h)) fun _ _ hitems => ?_
  refine FollowsFrom.then (.pushList hitems) fun _ _ hcolumns => ?_
  refine FollowsFrom.thenAll (follows_fromClause h) fun _ _ hsources => ?_
  refine FollowsFrom.thenAll (follows_condition h .WHERE .whereClause) fun _ _ hcondition => ?_
  refine FollowsFrom.thenAll (follows_groupByClause h) fun _ _ hgroups => ?_
  refine FollowsFrom.thenAll (follows_condition h .HAVING .having) fun _ _ hhaving => ?_
  have hcore := List.rel_append (.cons hhead hmark) (.cons hcolumns .nil)
  exact FollowsFrom.done (List.rel_append (List.rel_append (List.rel_append (List.rel_append hcore
    hsources) hcondition) hgroups) hhaving) rfl

theorem follows_coreParts (h : L.Contexts c d m) :
    L.Follows (m + 1) (fun _ => true) (coreParts c) (coreParts d) (List.Forall₂ L.node) := by
  refine FollowsFrom.at? rfl fun b => ?_
  cases b with
  | true => exact Follows.from (follows_valuesParts h)
  | false => exact Follows.from (follows_selectParts h)

/-! ### Chains of cores -/

theorem follows_setOperator? :
    L.Follows n Option.isSome setOperator? setOperator? (Option.Rel Eq) := by
  refine FollowsFrom.currentWord? fun w => ?_
  cases w with
  | none => exact FollowsFrom.done .none rfl
  | some w =>
    cases w with
    | UNION =>
      refine FollowsFrom.after .advanceWord fun _ _ _ => ?_
      exact FollowsFrom.ifEat rfl (.done (.some rfl) rfl) (.done (.some rfl) rfl)
    | EXCEPT | INTERSECT =>
      exact FollowsFrom.after .advanceWord fun _ _ _ => .done (.some rfl) rfl
    | _ => exact FollowsFrom.done .none rfl

theorem follows_extendChain (h : L.Contexts c d m) {parts parts' : List NodeId}
    (hparts : List.Forall₂ L.node parts parts') :
    L.Follows (m + 1) Option.isSome (extendChain c parts) (extendChain d parts')
      (Option.Rel (List.Forall₂ L.node)) := by
  refine FollowsFrom.bind follows_setOperator? fun o o' ho => ?_
  cases ho with
  | none => exact ⟨m + 1, _, Nat.le_add_right _ _, fun _ => .inr, .done .none rfl⟩
  | @some operator _ hoperator =>
    subst hoperator
    refine ⟨m + 1, fun _ => false, Nat.le_add_right _ _, fun _ _ => .inl rfl, ?_⟩
    refine FollowsFrom.then (.pushList hparts) fun _ _ hleft => ?_
    refine FollowsFrom.thenAll (follows_coreParts h).forget fun _ _ hcore => ?_
    refine FollowsFrom.then (.pushList hcore) fun _ _ hright => ?_
    refine FollowsFrom.then (.pushTag _) fun _ _ hhead => ?_
    exact FollowsFrom.done (.some (.cons hhead (.cons hleft (.cons hright .nil)))) rfl

theorem follows_chain (h : L.Contexts c d m) :
    L.Follows (m + 1) (fun _ => true) (chain c) (chain d) L.node := by
  refine FollowsFrom.after (follows_coreParts h) fun _ _ hfirst => ?_
  refine FollowsFrom.thenAll (Follows.mono (Follows.iterate (fun _ _ => follows_extendChain h) hfirst)
    (Nat.le_succ m)) fun _ _ hparts => ?_
  refine FollowsFrom.thenAll (Follows.mono (follows_orderByClause h) (Nat.le_succ m))
    fun _ _ horder => ?_
  refine FollowsFrom.thenAll (Follows.mono (follows_limitClause h) (Nat.le_succ m))
    fun _ _ hlimits => ?_
  exact FollowsFrom.pushList (List.rel_append (List.rel_append hparts horder) hlimits)

/-! ### Named queries -/

theorem follows_namedQuery (h : L.Contexts c d m) :
    L.Follows m (fun _ => false) (namedQuery c) (namedQuery d) L.node := by
  refine FollowsFrom.then .identifier fun _ _ hname => ?_
  refine FollowsFrom.thenAll follows_optionalColumnNames fun _ _ hcolumns => ?_
  refine FollowsFrom.then (.expect rfl) fun _ _ _ => ?_
  refine FollowsFrom.then (Follows.mono h.parenthesizedQuery (Nat.le_succ m)) fun _ _ hquery => ?_
  exact FollowsFrom.pushList (List.rel_append (.cons hname hcolumns) (.cons hquery .nil))

theorem follows_withQuery (h : L.Contexts c d m) :
    L.Follows (m + 1) (fun _ => true) (withQuery c) (withQuery d) L.node := by
  rw [withQuery_eq, withQuery_eq]
  refine FollowsFrom.after (.expect rfl) fun _ _ _ => ?_
  refine FollowsFrom.then (.pushTag _) fun _ _ hhead => ?_
  refine FollowsFrom.thenAll (follows_mark _ _) fun _ _ hmark => ?_
  refine FollowsFrom.thenAll (Follows.commaSeparated (follows_namedQuery h)) fun _ _ hitems => ?_
  refine FollowsFrom.then (.pushList hitems) fun _ _ htables => ?_
  refine FollowsFrom.then (Follows.mono (follows_chain h) (Nat.le_succ m)) fun _ _ hquery => ?_
  exact FollowsFrom.pushList
    (List.rel_append (.cons hhead hmark) (.cons htables (.cons hquery .nil)))

/-- Queries follow each other if the rules one level deeper do. -/
theorem follows_query (h : L.Contexts c d m) :
    L.Follows (m + 1) (fun _ => true) (query c) (query d) L.node := by
  refine FollowsFrom.at? rfl fun b => ?_
  cases b with
  | true => exact Follows.from (follows_withQuery h)
  | false => exact Follows.from (follows_chain h)

end Lockstep

namespace Lockstep

open Rule Query Statement

variable {L : Lockstep} {c d : Context} {m n : Nat}

/-! ### Changing rows -/

theorem follows_insert (h : L.Contexts c d m) :
    L.Follows (m + 1) (fun _ => true) (insert c) (insert d) L.node := by
  refine FollowsFrom.after (.expect rfl) fun _ _ _ => ?_
  refine FollowsFrom.then (.expect rfl) fun _ _ _ => ?_
  refine FollowsFrom.then (.pushTag _) fun _ _ hhead => ?_
  refine FollowsFrom.then follows_tableName fun _ _ htable => ?_
  refine FollowsFrom.thenAll follows_optionalColumnNames fun _ _ hcolumns => ?_
  refine FollowsFrom.then h.requiredQuery fun _ _ hrows => ?_
  exact FollowsFrom.pushList
    (List.rel_append (.cons hhead (.cons htable hcolumns)) (.cons hrows .nil))

theorem follows_assignment (h : L.Contexts c d m) :
    L.Follows m (fun _ => false) (assignment c) (assignment d) L.node := by
  refine FollowsFrom.then .identifier fun _ _ hcolumn => ?_
  refine FollowsFrom.then (.expect rfl) fun _ _ _ => ?_
  refine FollowsFrom.then (h.expression 0) fun _ _ hvalue => ?_
  exact FollowsFrom.tagged _ (.cons hcolumn (.cons hvalue .nil))

theorem follows_update (h : L.Contexts c d m) :
    L.Follows (m + 1) (fun _ => true) (update c) (update d) L.node := by
  refine FollowsFrom.after (.expect rfl) fun _ _ _ => ?_
  refine FollowsFrom.then (.pushTag _) fun _ _ hhead => ?_
  refine FollowsFrom.then follows_tableName fun _ _ hname => ?_
  refine FollowsFrom.then (follows_withAlias hname) fun _ _ htable => ?_
  refine FollowsFrom.then (.expect rfl) fun _ _ _ => ?_
  refine FollowsFrom.thenAll (Follows.commaSeparated (follows_assignment h)) fun _ _ hitems => ?_
  refine FollowsFrom.then (.pushList hitems) fun _ _ hassignments => ?_
  refine FollowsFrom.thenAll (follows_condition h .WHERE .whereClause) fun _ _ hcondition => ?_
  exact FollowsFrom.pushList (.cons hhead (.cons htable (.cons hassignments hcondition)))

theorem follows_delete (h : L.Contexts c d m) :
    L.Follows (m + 1) (fun _ => true) (delete c) (delete d) L.node := by
  refine FollowsFrom.after (.expect rfl) fun _ _ _ => ?_
  refine FollowsFrom.then (.expect rfl) fun _ _ _ => ?_
  refine FollowsFrom.then (.pushTag _) fun _ _ hhead => ?_
  refine FollowsFrom.then follows_tableName fun _ _ hname => ?_
  refine FollowsFrom.then (follows_withAlias hname) fun _ _ htable => ?_
  refine FollowsFrom.thenAll (follows_condition h .WHERE .whereClause) fun _ _ hcondition => ?_
  exact FollowsFrom.pushList (.cons hhead (.cons htable hcondition))

/-! ### Defining tables -/

theorem follows_columnConstraint? (h : L.Contexts c d m) :
    L.Follows m Option.isSome (columnConstraint? c) (columnConstraint? d) (Option.Rel L.node) := by
  refine FollowsFrom.currentWord? fun w => ?_
  cases w with
  | none => exact FollowsFrom.done .none rfl
  | some w =>
    cases w with
    | PRIMARY =>
      refine FollowsFrom.after .advanceWord fun _ _ _ => ?_
      refine FollowsFrom.then (.expect rfl) fun _ _ _ => ?_
      exact FollowsFrom.then (.pushTag _) fun _ _ hid => .done (.some hid) rfl
    | UNIQUE | NULL =>
      refine FollowsFrom.after .advanceWord fun _ _ _ => ?_
      exact FollowsFrom.then (.pushTag _) fun _ _ hid => .done (.some hid) rfl
    | NOT =>
      refine FollowsFrom.after .advanceWord fun _ _ _ => ?_
      refine FollowsFrom.then (.expect rfl) fun _ _ _ => ?_
      refine FollowsFrom.then (.pushTag _) fun _ _ hnull => ?_
      exact FollowsFrom.then (.tagged _ (.cons hnull .nil)) fun _ _ hid => .done (.some hid) rfl
    | DEFAULT =>
      refine FollowsFrom.after .advanceWord fun _ _ _ => ?_
      have hexpression := Follows.mono (h.expression 0) (Nat.sub_le m 1)
      refine FollowsFrom.then hexpression fun _ _ hvalue => ?_
      exact FollowsFrom.then (.tagged _ (.cons hvalue .nil)) fun _ _ hid => .done (.some hid) rfl
    | _ => exact FollowsFrom.done .none rfl

theorem follows_columnType :
    L.Follows n (fun _ => false) columnType columnType (List.Forall₂ L.node) := by
  refine FollowsFrom.atPlainIdentifier fun b => ?_
  cases b with
  | false => exact FollowsFrom.done .nil rfl
  | true =>
    refine Follows.from ?_
    exact FollowsFrom.then follows_typeName fun _ _ htype => .done (.cons htype .nil) rfl

theorem follows_extendColumn (h : L.Contexts c d m) {parts parts' : List NodeId}
    (hparts : List.Forall₂ L.node parts parts') :
    L.Follows m Option.isSome (extendColumn c parts) (extendColumn d parts')
      (Option.Rel (List.Forall₂ L.node)) := by
  refine FollowsFrom.bind (follows_columnConstraint? h) fun o o' ho => ?_
  cases ho with
  | none => exact ⟨m, _, Nat.le_add_right _ _, fun _ => .inr, .done .none rfl⟩
  | some hconstraint =>
    refine ⟨m, fun _ => false, Nat.le_add_right _ _, fun _ _ => .inl rfl, ?_⟩
    exact FollowsFrom.done (.some (List.rel_append hparts (.cons hconstraint .nil))) rfl

theorem follows_columnDefinition (h : L.Contexts c d m) :
    L.Follows m (fun _ => false) (columnDefinition c) (columnDefinition d) L.node := by
  rw [columnDefinition_eq, columnDefinition_eq]
  refine FollowsFrom.then .identifier fun _ _ hname => ?_
  refine FollowsFrom.thenAll follows_columnType fun _ _ htype => ?_
  refine FollowsFrom.thenAll (Follows.iterate (fun _ _ => follows_extendColumn h)
    (.cons hname htype)) fun _ _ hparts => ?_
  exact FollowsFrom.pushList hparts

theorem follows_constraintTag : L.Follows n (fun _ => false) constraintTag constraintTag Eq := by
  refine FollowsFrom.ifEat rfl ?_ ?_
  all_goals exact FollowsFrom.then (.expect rfl) fun _ _ _ => .done rfl rfl

theorem follows_tableConstraint :
    L.Follows n (fun _ => false) tableConstraint tableConstraint L.node := by
  rw [tableConstraint_eq]
  refine FollowsFrom.then follows_constraintTag ?_
  rintro tag _ rfl
  refine FollowsFrom.then (.pushTag tag) fun _ _ hhead => ?_
  refine FollowsFrom.then (.expect rfl) fun _ _ _ => ?_
  refine FollowsFrom.thenAll Follows.identifiers fun _ _ hcolumns => ?_
  refine FollowsFrom.then (.expect rfl) fun _ _ _ => ?_
  exact FollowsFrom.pushList (.cons hhead hcolumns)

theorem follows_tableElement (h : L.Contexts c d m) :
    L.Follows m (fun _ => false) (tableElement c) (tableElement d) L.node := by
  refine FollowsFrom.currentWord? fun w => ?_
  cases w with
  | none => exact Follows.from (follows_columnDefinition h)
  | some w =>
    cases w with
    | PRIMARY | UNIQUE => exact Follows.from follows_tableConstraint
    | _ => exact Follows.from (follows_columnDefinition h)

theorem follows_createTable (h : L.Contexts c d m) :
    L.Follows m (fun _ => false) (createTable c) (createTable d) L.node := by
  refine FollowsFrom.then (.expect rfl) fun _ _ _ => ?_
  refine FollowsFrom.then (.pushTag _) fun _ _ hhead => ?_
  refine FollowsFrom.then follows_tableName fun _ _ hname => ?_
  refine FollowsFrom.then (.expect rfl) fun _ _ _ => ?_
  refine FollowsFrom.thenAll (Follows.commaSeparated (follows_tableElement h)) fun _ _ hitems => ?_
  refine FollowsFrom.then (.expect rfl) fun _ _ _ => ?_
  refine FollowsFrom.then (.pushList hitems) fun _ _ hlist => ?_
  exact FollowsFrom.pushList (.cons hhead (.cons hname (.cons hlist .nil)))

/-! ### Defining indexes and views, and dropping -/

theorem follows_createIndex (h : L.Contexts c d m) :
    L.Follows m (fun _ => false) (createIndex c) (createIndex d) L.node := by
  rw [createIndex_eq, createIndex_eq]
  refine FollowsFrom.then (.pushTag _) fun _ _ hhead => ?_
  refine FollowsFrom.thenAll (follows_mark _ _) fun _ _ hmark => ?_
  refine FollowsFrom.then (.expect rfl) fun _ _ _ => ?_
  refine FollowsFrom.then follows_tableName fun _ _ hname => ?_
  refine FollowsFrom.then (.expect rfl) fun _ _ _ => ?_
  refine FollowsFrom.then follows_tableName fun _ _ htable => ?_
  refine FollowsFrom.then (.expect rfl) fun _ _ _ => ?_
  refine FollowsFrom.thenAll (Follows.commaSeparated (follows_orderingTerm h)) fun _ _ hterms => ?_
  refine FollowsFrom.then (.expect rfl) fun _ _ _ => ?_
  refine FollowsFrom.then (.pushList hterms) fun _ _ hlist => ?_
  exact FollowsFrom.pushList
    (List.rel_append (.cons hhead hmark) (.cons hname (.cons htable (.cons hlist .nil))))

theorem follows_createView (h : L.Contexts c d m) :
    L.Follows m (fun _ => false) (createView c) (createView d) L.node := by
  refine FollowsFrom.then (.expect rfl) fun _ _ _ => ?_
  refine FollowsFrom.then (.pushTag _) fun _ _ hhead => ?_
  refine FollowsFrom.then follows_tableName fun _ _ hname => ?_
  refine FollowsFrom.thenAll follows_optionalColumnNames fun _ _ hcolumns => ?_
  refine FollowsFrom.then (.expect rfl) fun _ _ _ => ?_
  refine FollowsFrom.then h.requiredQuery fun _ _ hquery => ?_
  exact FollowsFrom.pushList
    (List.rel_append (.cons hhead (.cons hname hcolumns)) (.cons hquery .nil))

theorem follows_create (h : L.Contexts c d m) :
    L.Follows (m + 1) (fun _ => true) (create c) (create d) L.node := by
  refine FollowsFrom.after (.expect rfl) fun _ _ _ => ?_
  refine FollowsFrom.currentWord? fun w => ?_
  cases w with
  | none => exact FollowsFrom.unexpected
  | some w =>
    cases w with
    | TABLE => exact Follows.from (follows_createTable h)
    | UNIQUE | INDEX => exact Follows.from (follows_createIndex h)
    | VIEW => exact Follows.from (follows_createView h)
    | _ => exact FollowsFrom.unexpected

theorem follows_existsMark :
    L.Follows n (fun _ => false) existsMark existsMark (List.Forall₂ L.node) := by
  refine FollowsFrom.behind rfl ?_
  refine FollowsFrom.then (.expect rfl) fun _ _ _ => ?_
  exact FollowsFrom.then (.pushTag _) fun _ _ hmark => .done (.cons hmark .nil) rfl

theorem follows_drop : L.Follows n (fun _ => true) drop drop L.node := by
  rw [drop_eq]
  refine FollowsFrom.after (.expect rfl) fun _ _ _ => ?_
  refine FollowsFrom.currentWord? fun w => ?_
  cases hw : w.bind dropTag? with
  | none => exact FollowsFrom.unexpected
  | some tag =>
    obtain ⟨w, rfl, _⟩ := Option.bind_eq_some_iff.1 hw
    refine FollowsFrom.after .advanceWord fun _ _ _ => ?_
    refine FollowsFrom.then (.pushTag tag) fun _ _ hhead => ?_
    refine FollowsFrom.thenAll follows_existsMark fun _ _ hmark => ?_
    refine FollowsFrom.then follows_tableName fun _ _ hname => ?_
    exact FollowsFrom.pushList (List.rel_append (.cons hhead hmark) (.cons hname .nil))

/-! ### The whole grammar -/

/-- One level of the grammar: if the rules one level deeper follow each other, so do the rules of this
level, for one token more. -/
theorem Contexts.body (h : L.Contexts c d m) {c' d' : Context} (hleft : c'.policy = L.left)
    (hright : d'.policy = L.right) (hc : c'.enter = Statement.body c)
    (hd : d'.enter = Statement.body d) : L.Contexts c' d' (m + 1) where
  left := hleft
  right := hright
  expression := by
    intro power
    rw [hc, hd]
    exact follows_expression h power
  query := by
    rw [Context.query, Context.query, hc, hd]
    exact follows_query h
  tableSource := by
    rw [hc, hd]
    exact follows_tableSource h

/-- Statements follow each other if the rules that they enclose do. -/
theorem follows_statement (h : L.Contexts c d m) :
    L.Follows m (fun _ => true) (statement c) (statement d) L.node := by
  refine FollowsFrom.currentWord? fun w => ?_
  cases w with
  | none => exact FollowsFrom.unexpected
  | some w =>
    cases w with
    | SELECT | VALUES | WITH => exact Follows.from h.query
    | INSERT => exact Follows.from (Follows.mono (follows_insert h) (Nat.le_succ m))
    | UPDATE => exact Follows.from (Follows.mono (follows_update h) (Nat.le_succ m))
    | DELETE => exact Follows.from (Follows.mono (follows_delete h) (Nat.le_succ m))
    | CREATE => exact Follows.from (Follows.mono (follows_create h) (Nat.le_succ m))
    | DROP => exact Follows.from follows_drop
    | _ => exact FollowsFrom.unexpected

end Lockstep

end TaggedSql
