import TaggedSql.Proofs.Ledger.Expressions

/-!
# The account of queries and statements

If the rules one level deeper keep a ledger, so do the rules for queries, and then, level by level, all
rules up to those for statements.

* `keeps_query`, `keeps_tableSource`: queries and their sources;
* `context_enter`: every level keeps the ledger;
* `keeps_statement`: a statement hands over its root and nothing else.
-/

namespace TaggedSql.Ledger

open Rule Query

variable {L : Ledger} {c : TaggedSql.Context}

/-! ### Names and aliases -/

theorem keeps_tableName : L.Keeps [] tableName fun id => [id] := by
  refine keeps_identifier.bind fun first => ?_
  refine .ifEat ?_ (.done .rfl)
  exact keeps_identifier.bind fun name => keeps_pushList .rfl

theorem keeps_alias? : L.Keeps [] alias? fun o => o.toList := by
  refine .ifEat (keeps_identifier.then fun name => .done .rfl) ?_
  refine keeps_current.pass fun t => ?_
  split
  next => exact keeps_identifier.then fun name => .done .rfl
  next => exact .done .rfl

theorem keeps_withAlias (node : NodeId) : L.Keeps [node] (withAlias node) fun id => [id] := by
  refine keeps_alias?.bind fun o => ?_
  cases o with
  | some name => exact keeps_tagged _ .rfl
  | none => exact .done .rfl

theorem keeps_columnNames : L.Keeps [] columnNames fun id => [id] := by
  refine (keeps_expect _).pass fun _ => ?_
  refine (keeps_pushTag _).bind fun head => ?_
  refine keeps_identifiers.bind fun names => ?_
  exact (keeps_expect _).pass fun _ => keeps_pushList .rfl

theorem keeps_optionalColumnNames : L.Keeps [] optionalColumnNames id :=
  .ifLook (keeps_at? _) keeps_columnNames.single (.done .rfl)

/-! ### Clauses -/

theorem keeps_mark (w : Word) (t : Tag) : L.Keeps [] (mark w t) id :=
  keeps_behind _ (keeps_pushTag _).single

theorem keeps_condition (h : L.Context c) (w : Word) (t : Tag) :
    L.Keeps [] (condition w t c) id := by
  refine keeps_behind _ (h.expression.then fun condition => ?_)
  exact (keeps_tagged _ .rfl).single

/-- A tag and the items behind it, as one clause. -/
theorem keeps_clause (t : Tag) {items : Rule (List NodeId)} (h : L.Keeps [] items id) :
    L.Keeps [] (do
      let head ← pushTag t
      let ids ← items
      return [← Rule.pushList (head :: ids)]) id := by
  refine (keeps_pushTag t).bind fun head => ?_
  refine h.bind fun ids => ?_
  exact (keeps_pushList .rfl).single

/-! ### Sources -/

theorem keeps_joinOperator? : L.Keeps [] joinOperator? fun _ => [] := by
  refine keeps_currentWord?.pass fun w => ?_
  split
  next => exact (keeps_expect _).pass fun _ => .done .rfl
  next => exact keeps_advance.pass fun _ => (keeps_expect _).pass fun _ => .done .rfl
  next => exact keeps_advance.pass fun _ => (keeps_expect _).pass fun _ => .done .rfl
  next =>
    refine keeps_advance.pass fun _ => ?_
    refine (keeps_eat _).pass fun _ => ?_
    exact (keeps_expect _).pass fun _ => .done .rfl
  next => exact .done .rfl

theorem keeps_tableReference (h : L.Context c) : L.Keeps [] (tableReference c) fun id => [id] := by
  rw [tableReference_eq]
  refine Keeps.then (.ifEat ?_ keeps_tableName) keeps_withAlias
  refine (h.enter _).then fun inner => ?_
  exact (keeps_expect _).pass fun _ => .done .rfl

/-- A join uses its left side up. -/
theorem keeps_extendJoin (h : L.Context c) (left : NodeId) :
    L.Keeps [left] (extendJoin c left) fun o => [o.getD left] := by
  refine keeps_joinOperator?.pass fun operator => ?_
  cases operator with
  | none => exact .done .rfl
  | some kind =>
    refine (keeps_tableReference h).bind fun right => ?_
    refine (keeps_pushTag _).bind fun head => ?_
    refine (keeps_pushTag _).bind fun mark => ?_
    refine (keeps_condition h _ _).bind fun condition => ?_
    have hsides : ([left] ++ [right] ++ [head] ++ [mark] ++ condition).Perm
        ([head, mark, left, right] ++ condition) :=
      List.Perm.append_right condition (show ([left, right] ++ [head, mark]).Perm _ from
        List.perm_append_comm)
    exact (keeps_pushList hsides).then fun id => .done .rfl

theorem keeps_joinSource (h : L.Context c) : L.Keeps [] (joinSource c) fun id => [id] :=
  (keeps_tableReference h).then (Keeps.iterate (keeps_extendJoin h))

theorem keeps_tableSource (h : L.Context c) : L.Keeps [] (tableSource c) fun id => [id] :=
  .ifLook keeps_atQuery h.query (keeps_joinSource h)

/-! ### Select cores -/

theorem keeps_resultColumn (h : L.Context c) : L.Keeps [] (resultColumn c) fun id => [id] := by
  refine .ifEat (keeps_pushTag _) ?_
  refine keeps_current.pass fun t => ?_
  refine (keeps_peek 1).pass fun t' => ?_
  refine (keeps_peek 2).pass fun t'' => ?_
  split
  next =>
    refine keeps_identifier.bind fun table => ?_
    refine keeps_advance.pass fun _ => ?_
    refine keeps_advance.pass fun _ => ?_
    refine (keeps_pushTag _).bind fun head => ?_
    exact keeps_pushList (.swap head table [])
  next => exact h.expression.then keeps_withAlias

theorem keeps_rowMark : L.Keeps [] rowMark id :=
  .ifEat (keeps_pushTag _).single (.ifEat (keeps_pushTag _).single (.done .rfl))

theorem keeps_fromClause (h : L.Context c) : L.Keeps [] (fromClause c) id :=
  keeps_behind _ (keeps_clause _ (keeps_commaSeparated (keeps_joinSource h)))

theorem keeps_groupByClause (h : L.Context c) : L.Keeps [] (groupByClause c) id :=
  keeps_behind _ ((keeps_expect _).pass fun _ => keeps_clause _ h.expressions)

theorem keeps_valueRow (h : L.Context c) : L.Keeps [] (valueRow c) fun id => [id] := by
  refine (keeps_expect _).pass fun _ => ?_
  refine h.expressions.then fun row => ?_
  exact (keeps_expect _).pass fun _ => keeps_pushList .rfl

theorem keeps_valuesParts (h : L.Context c) : L.Keeps [] (valuesParts c) id := by
  refine (keeps_expect _).pass fun _ => ?_
  refine (keeps_pushTag _).bind fun head => ?_
  exact (keeps_commaSeparated (keeps_valueRow h)).bind fun rows => .done .rfl

theorem keeps_selectParts (h : L.Context c) : L.Keeps [] (selectParts c) id := by
  refine (keeps_expect _).pass fun _ => ?_
  refine (keeps_pushTag _).bind fun head => ?_
  refine keeps_rowMark.bind fun mark => ?_
  refine (keeps_commaSeparated (keeps_resultColumn h)).bind fun items => ?_
  refine (keeps_pushList .rfl).on fun columns => ?_
  refine (keeps_fromClause h).bind fun sources => ?_
  refine (keeps_condition h _ _).bind fun condition => ?_
  refine (keeps_groupByClause h).bind fun groups => ?_
  refine (keeps_condition h _ _).bind fun having => ?_
  exact .done .rfl

theorem keeps_coreParts (h : L.Context c) : L.Keeps [] (coreParts c) id :=
  .ifLook (keeps_at? _) (keeps_valuesParts h) (keeps_selectParts h)

/-! ### Chains of cores -/

theorem keeps_setOperator? : L.Keeps [] setOperator? fun _ => [] := by
  refine keeps_currentWord?.pass fun w => ?_
  split
  next => exact keeps_advance.pass fun _ => .ifEat (.done .rfl) (.done .rfl)
  next => exact keeps_advance.pass fun _ => .done .rfl
  next => exact keeps_advance.pass fun _ => .done .rfl
  next => exact .done .rfl

/-- The parts of the chain so far go into a list, and those of the new core into another. -/
theorem keeps_extendChain (h : L.Context c) (parts : List NodeId) :
    L.Keeps parts (extendChain c parts) fun o => o.getD parts := by
  refine keeps_setOperator?.pass fun operator => ?_
  cases operator with
  | none => exact .done .rfl
  | some tag =>
    refine (keeps_pushList .rfl).then fun left => ?_
    refine (keeps_coreParts h).bind fun core => ?_
    refine (keeps_pushList .rfl).on fun right => ?_
    refine (keeps_pushTag _).bind fun head => ?_
    exact .done (show ([left, right] ++ [head]).Perm _ from List.perm_append_comm)

theorem keeps_orderingTerm (h : L.Context c) : L.Keeps [] (orderingTerm c) fun id => [id] := by
  refine h.expression.then fun key => ?_
  refine keeps_currentWord?.pass fun w => ?_
  split
  next => exact keeps_advance.pass fun _ => keeps_tagged _ .rfl
  next => exact keeps_advance.pass fun _ => keeps_tagged _ .rfl
  next => exact .done .rfl

theorem keeps_orderByClause (h : L.Context c) : L.Keeps [] (orderByClause c) id :=
  keeps_behind _ ((keeps_expect _).pass fun _ =>
    keeps_clause _ (keeps_commaSeparated (keeps_orderingTerm h)))

/-- Limits and offsets are put into lists one after the other, in either order. -/
theorem keeps_limitRest (h : L.Context c) (first : NodeId) :
    L.Keeps [first] (limitRest c first) id := by
  refine .ifEat ?_ (.ifEat ?_ (keeps_tagged _ .rfl).single)
  · refine h.expression.bind fun count => ?_
    refine (keeps_tagged _ .rfl).on fun limit => ?_
    refine Keeps.perm ?_ (.swap limit first [])
    exact (keeps_tagged _ .rfl).on (k := [limit]) fun offset => .done .rfl
  · refine h.expression.bind fun skipped => ?_
    refine Keeps.perm ?_ (.swap skipped first [])
    refine (keeps_tagged _ .rfl).on (k := [skipped]) fun limit => ?_
    refine Keeps.perm ?_ (.swap limit skipped [])
    exact (keeps_tagged _ .rfl).on (k := [limit]) fun offset => .done .rfl

theorem keeps_limitClause (h : L.Context c) : L.Keeps [] (limitClause c) id :=
  keeps_behind _ (h.expression.then (keeps_limitRest h))

theorem keeps_chain (h : L.Context c) : L.Keeps [] (chain c) fun id => [id] := by
  refine (keeps_coreParts h).then fun first => ?_
  refine (Keeps.iterate (g := id) (keeps_extendChain h) first).then fun parts => ?_
  refine (keeps_orderByClause h).bind fun order => ?_
  refine (keeps_limitClause h).bind fun limits => ?_
  exact keeps_pushList .rfl

/-! ### Named queries -/

theorem keeps_namedQuery (h : L.Context c) : L.Keeps [] (namedQuery c) fun id => [id] := by
  refine keeps_identifier.bind fun name => ?_
  refine keeps_optionalColumnNames.bind fun columns => ?_
  refine (keeps_expect _).pass fun _ => ?_
  refine h.parenthesizedQuery.bind fun query => ?_
  exact keeps_pushList .rfl

theorem keeps_withQuery (h : L.Context c) : L.Keeps [] (withQuery c) fun id => [id] := by
  rw [withQuery_eq]
  refine (keeps_expect _).pass fun _ => ?_
  refine (keeps_pushTag _).bind fun head => ?_
  refine (keeps_mark _ _).bind fun mark => ?_
  refine (keeps_commaSeparated (keeps_namedQuery h)).bind fun items => ?_
  refine (keeps_pushList .rfl).on fun tables => ?_
  refine (keeps_chain h).bind fun query => ?_
  exact keeps_pushList (.of_eq (by simp))

theorem keeps_query (h : L.Context c) : L.Keeps [] (query c) fun id => [id] :=
  .ifLook (keeps_at? _) (keeps_withQuery h) (keeps_chain h)

/-! ### Changing rows -/

section Statements

open Statement

theorem keeps_insert (h : L.Context c) : L.Keeps [] (insert c) fun id => [id] := by
  refine (keeps_expect _).pass fun _ => ?_
  refine (keeps_expect _).pass fun _ => ?_
  refine (keeps_pushTag _).bind fun head => ?_
  refine keeps_tableName.bind fun table => ?_
  refine keeps_optionalColumnNames.bind fun columns => ?_
  refine h.requiredQuery.bind fun rows => ?_
  exact keeps_pushList .rfl

theorem keeps_assignment (h : L.Context c) : L.Keeps [] (assignment c) fun id => [id] := by
  refine keeps_identifier.bind fun column => ?_
  refine (keeps_expect _).pass fun _ => ?_
  exact h.expression.bind fun value => keeps_tagged _ .rfl

theorem keeps_update (h : L.Context c) : L.Keeps [] (update c) fun id => [id] := by
  refine (keeps_expect _).pass fun _ => ?_
  refine (keeps_pushTag _).bind fun head => ?_
  refine keeps_tableName.bind fun name => ?_
  refine (keeps_withAlias name).on fun table => ?_
  refine (keeps_expect _).pass fun _ => ?_
  refine (keeps_commaSeparated (keeps_assignment h)).bind fun items => ?_
  refine (keeps_pushList .rfl).on fun assignments => ?_
  refine (keeps_condition h _ _).bind fun condition => ?_
  exact keeps_pushList .rfl

theorem keeps_delete (h : L.Context c) : L.Keeps [] (delete c) fun id => [id] := by
  refine (keeps_expect _).pass fun _ => ?_
  refine (keeps_expect _).pass fun _ => ?_
  refine (keeps_pushTag _).bind fun head => ?_
  refine keeps_tableName.bind fun name => ?_
  refine (keeps_withAlias name).on fun table => ?_
  refine (keeps_condition h _ _).bind fun condition => ?_
  exact keeps_pushList .rfl

/-! ### Definitions -/

theorem keeps_columnConstraint? (h : L.Context c) :
    L.Keeps [] (columnConstraint? c) fun o => o.toList := by
  have hsome : ∀ {given : List NodeId} {r : Rule NodeId}, L.Keeps given r (fun id => [id]) →
      L.Keeps given (do return some (← r)) fun o => o.toList :=
    fun hr => hr.then fun id => .done .rfl
  refine keeps_currentWord?.pass fun w => ?_
  split
  next =>
    refine keeps_advance.pass fun _ => ?_
    exact (keeps_expect _).pass fun _ => hsome (keeps_pushTag _)
  next => exact keeps_advance.pass fun _ => hsome (keeps_pushTag _)
  next => exact keeps_advance.pass fun _ => hsome (keeps_pushTag _)
  next =>
    refine keeps_advance.pass fun _ => ?_
    refine (keeps_expect _).pass fun _ => ?_
    exact (keeps_pushTag _).then fun null => hsome (keeps_tagged _ .rfl)
  next =>
    refine keeps_advance.pass fun _ => ?_
    exact h.expression.then fun value => hsome (keeps_tagged _ .rfl)
  next => exact .done .rfl

theorem keeps_columnDefinition (h : L.Context c) :
    L.Keeps [] (columnDefinition c) fun id => [id] := by
  rw [columnDefinition_eq]
  have htype : L.Keeps [] columnType id :=
    .ifLook keeps_atPlainIdentifier keeps_typeName.single (.done .rfl)
  have hextend : ∀ parts, L.Keeps parts (extendColumn c parts) fun o => o.getD parts := by
    intro parts
    refine (keeps_columnConstraint? h).bind fun constraint => ?_
    cases constraint with
    | some constraint => exact .done .rfl
    | none => exact .done (.of_eq (List.append_nil parts))
  refine keeps_identifier.bind fun name => ?_
  refine htype.bind fun type => ?_
  refine (Keeps.iterate (g := id) hextend (name :: type)).then fun parts => ?_
  exact keeps_pushList .rfl

theorem keeps_tableConstraint : L.Keeps [] tableConstraint fun id => [id] := by
  rw [tableConstraint_eq]
  have htag : L.Keeps [] constraintTag fun _ => [] := by
    refine .ifEat ?_ ?_
    · exact (keeps_expect _).pass fun _ => .done .rfl
    · exact (keeps_expect _).pass fun _ => .done .rfl
  refine htag.pass fun tag => ?_
  refine (keeps_pushTag _).bind fun head => ?_
  refine (keeps_expect _).pass fun _ => ?_
  refine keeps_identifiers.bind fun columns => ?_
  exact (keeps_expect _).pass fun _ => keeps_pushList .rfl

theorem keeps_tableElement (h : L.Context c) : L.Keeps [] (tableElement c) fun id => [id] := by
  refine keeps_currentWord?.pass fun w => ?_
  split
  next => exact keeps_tableConstraint
  next => exact keeps_tableConstraint
  next => exact keeps_columnDefinition h

theorem keeps_createTable (h : L.Context c) : L.Keeps [] (createTable c) fun id => [id] := by
  refine (keeps_expect _).pass fun _ => ?_
  refine (keeps_pushTag _).bind fun head => ?_
  refine keeps_tableName.bind fun name => ?_
  refine (keeps_expect _).pass fun _ => ?_
  refine (keeps_commaSeparated (keeps_tableElement h)).bind fun elements => ?_
  refine (keeps_expect _).pass fun _ => ?_
  refine (keeps_pushList .rfl).on fun list => ?_
  exact keeps_pushList .rfl

theorem keeps_createIndex (h : L.Context c) : L.Keeps [] (createIndex c) fun id => [id] := by
  rw [createIndex_eq]
  refine (keeps_pushTag _).bind fun head => ?_
  refine (keeps_mark _ _).bind fun mark => ?_
  refine (keeps_expect _).pass fun _ => ?_
  refine keeps_tableName.bind fun name => ?_
  refine (keeps_expect _).pass fun _ => ?_
  refine keeps_tableName.bind fun table => ?_
  refine (keeps_expect _).pass fun _ => ?_
  refine (keeps_commaSeparated (keeps_orderingTerm h)).bind fun terms => ?_
  refine (keeps_expect _).pass fun _ => ?_
  refine (keeps_pushList .rfl).on fun list => ?_
  exact keeps_pushList (.of_eq (by simp))

theorem keeps_createView (h : L.Context c) : L.Keeps [] (createView c) fun id => [id] := by
  refine (keeps_expect _).pass fun _ => ?_
  refine (keeps_pushTag _).bind fun head => ?_
  refine keeps_tableName.bind fun name => ?_
  refine keeps_optionalColumnNames.bind fun columns => ?_
  refine (keeps_expect _).pass fun _ => ?_
  refine h.requiredQuery.bind fun query => ?_
  exact keeps_pushList .rfl

theorem keeps_create (h : L.Context c) : L.Keeps [] (create c) fun id => [id] := by
  refine (keeps_expect _).pass fun _ => ?_
  refine keeps_currentWord?.pass fun w => ?_
  split
  next => exact keeps_createTable h
  next => exact keeps_createIndex h
  next => exact keeps_createIndex h
  next => exact keeps_createView h
  next => exact .unexpected

theorem keeps_drop : L.Keeps [] drop fun id => [id] := by
  rw [drop_eq]
  have hmark : L.Keeps [] existsMark id :=
    keeps_behind _ ((keeps_expect _).pass fun _ => (keeps_pushTag _).single)
  refine (keeps_expect _).pass fun _ => ?_
  refine keeps_currentWord?.pass fun w => ?_
  split
  next => exact .unexpected
  next tag _ =>
    refine keeps_advance.pass fun _ => ?_
    refine (keeps_pushTag _).bind fun head => ?_
    refine hmark.bind fun mark => ?_
    refine keeps_tableName.bind fun name => ?_
    exact keeps_pushList .rfl

/-! ### The whole grammar -/

theorem keeps_body (h : L.Context c) (entry : Entry) : L.Keeps [] (body c entry) fun id => [id] := by
  cases entry with
  | expression power => exact keeps_expression h power
  | query => exact keeps_query h
  | tableSource => exact keeps_tableSource h

/-- Every level keeps the ledger: where no room is left, rules fail. -/
theorem context_enter {settings : Settings} (h : settings.overflow = L.policy) (room : Nat) :
    L.Context ⟨settings.overflow, enter settings room⟩ := by
  induction room with
  | zero => exact ⟨h, fun entry => keeps_current.pass fun t => .throw⟩
  | succ room ih => exact ⟨h, keeps_body ih⟩

theorem keeps_statement (h : L.Context c) : L.Keeps [] (statement c) fun id => [id] := by
  refine keeps_currentWord?.pass fun w => ?_
  split
  next => exact h.query
  next => exact h.query
  next => exact h.query
  next => exact keeps_insert h
  next => exact keeps_update h
  next => exact keeps_delete h
  next => exact keeps_create h
  next => exact keeps_drop
  next => exact .unexpected

theorem keeps_skipSemicolons : L.Keeps [] skipSemicolons fun _ => [] := by
  refine Keeps.iterate (g := fun _ => []) (fun _ => ?_) ()
  exact .ifEat (.done .rfl) (.done .rfl)

end Statements

end TaggedSql.Ledger
