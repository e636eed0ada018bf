import TaggedSql.Proofs.Statement.Queries
import TaggedSql.Session

/-!
# Printed statements are read back

A statement printed with one space between neighbouring pieces is parsed as its own tree, whatever
optional parts it has and however deep its queries and joins are nested, as long as the levels that
it needs are allowed.

* `Command.reads`: every statement is read back up to the end of the source;
* `parse_print`: what the parser makes of a printed source that a rule reads back;
* `parse_print_command`: every printed statement is parsed as its tree;
* `parse_print_select`: every printed expression is parsed as its tree, behind the word `SELECT`.
-/

namespace TaggedSql

open Piece Rule Arena Statement Query

variable {source : String} {settings : Settings} {room : Nat} {ps rest : List Piece} {c : Context}

/-- With room for what it encloses, a statement is read back up to the end of the source. -/
def Command.Reads (command : Command) : Prop :=
  ∀ (source : String) (settings : Settings) (room : Nat), command.depth ≤ room →
    Takes source (fun _ => True) (statement (contextOf settings room)) command.pieces []
      fun id A => Shows source A id command.datum

/-! ### Changing rows -/

/-- The name of a table with the alias that may follow is read back. -/
theorem takes_aliasedTable (t : TableName) (label : Option Alias)
    (hdot : kindAt 0 rest ≠ .symbol .dot) (hname : (kindAt 0 rest).isIdentifier = false)
    (has : kindAt 0 rest ≠ .word .AS) :
    Takes source (fun _ => True) (tableName >>= withAlias) (t.pieces ++ Piece.aliasOf label) rest
      fun id A => Shows source A id (t.datum.aliased label) := by
  refine Takes.seq (takes_tableName t (kindAt_aliasOf_ne_dot label hdot)) fun id => ?_
  exact (takes_withAlias id label hname has).weaken fun A hA => hA.2

theorem Command.reads_insert (table : TableName) (columns : Option (Several Name)) (rows : Query) :
    (Command.insert table columns rows).Reads := by
  intro source settings room hdepth
  have hfront : kindAt 0 (Piece.columnNames columns ++ (rows.pieces ++ [])) ≠ .symbol .dot := by
    cases columns with
    | none =>
      intro h
      have hstart := rows.startsQuery []
      rw [show kindAt 0 (rows.pieces ++ []) = _ from h] at hstart
      cases hstart
    | some names => exact nofun
  have hparen : kindAt 0 (rows.pieces ++ []) ≠ .symbol .leftParen := by
    intro h
    have hstart := rows.startsQuery []
    rw [h] at hstart
    cases hstart
  rw [statement, Command.pieces]
  refine Leads.currentWord? ?_
  show Leads source _ (Statement.insert _) _ _ _ _
  rw [Statement.insert]
  refine Leads.expect (t := .word .INSERT) ?_
  refine Leads.expect (t := .word .INTO) ?_
  refine Leads.pushTag fun head => ?_
  refine Takes.seq (takes_tableName table (by rw [List.append_assoc]; exact hfront)) fun tableId => ?_
  refine Takes.seq (takes_optionalColumnNames columns hparen) fun columnIds => ?_
  rw [← List.append_nil rows.pieces]
  refine Takes.seq (rows.reads.required hdepth (Nat.le_refl 8)) fun rowsId => ?_
  refine Takes.pushList fun A hA => ?_
  obtain ⟨⟨⟨⟨_, hhead⟩, htable⟩, hcolumns⟩, hrows⟩ := hA
  exact (ShowsAll.append (showsAll_cons.2 ⟨hhead, htable.single⟩) hcolumns).append hrows.single

theorem takes_assignment (a : Assignment) (hdepth : a.value.depth < room)
    (hrest : isLight (kindAt 0 rest) = true) :
    Takes source (fun _ => True) (assignment (contextOf settings room)) a.pieces rest
      fun id A => Shows source A id a.datum := by
  rw [assignment, Assignment.pieces]
  refine Takes.seqCons (takes_identifier a.column) fun column => ?_
  refine Leads.expect (t := .symbol .equal) ?_
  rw [← List.append_nil a.value.pieces]
  refine Takes.seq (takes_expression a.value hdepth (weight_of_isLight hrest)) fun value => ?_
  exact Takes.tagged fun A hA => showsAll_cons.2 ⟨hA.1.2, hA.2.single⟩

theorem Command.reads_update (table : TableName) (label : Option Alias)
    (assignments : Several Assignment) (condition : Option Expr) :
    (Command.update table label assignments condition).Reads := by
  intro source settings room hdepth
  rw [Command.depth] at hdepth
  have hrank : 2 ≤ (kindAt 0 (Piece.condition .WHERE condition ++ [])).rank :=
    rank_optional condition Expr.pieces (Nat.le_refl 2) (by decide)
  rw [statement, Command.pieces]
  refine Leads.currentWord? ?_
  show Leads source _ (Statement.update _) _ _ _ _
  rw [Statement.update, ← List.append_assoc table.pieces]
  refine Leads.expect (t := .word .UPDATE) ?_
  refine Leads.pushTag fun head => ?_
  rw [← bind_assoc tableName]
  refine Takes.seq (takes_aliasedTable table label (by simp) (by simp; rfl) (by simp))
    fun tableId => ?_
  refine Leads.expect (t := .word .SET) ?_
  refine Takes.seq (P := fun ids A => ShowsAll source A ids (assignments.toList.map Assignment.datum))
    (takes_separatedBy assignments.first assignments.more (fun a ha more hmore => ?_) ?_)
    fun ids => ?_
  · have hle := le_deepest (List.mem_map_of_mem (f := fun a : Assignment => a.value.depth + 1) ha)
    refine takes_assignment a (Nat.le_trans hle (Nat.le_trans (Nat.le_max_left _ _) hdepth)) ?_
    rcases hmore with rfl | ⟨others, rfl⟩
    · exact isLight_of_isFree (isFree_of_rank (Nat.le_trans (by decide) hrank))
    · rfl
  · exact Kind.ne_of_rank hrank (by decide)
  refine Leads.pushList (fun A hA => hA.2) fun list => ?_
  rw [whereClause_eq, ← List.append_nil (Piece.condition .WHERE condition)]
  refine Takes.seq (takes_condition .WHERE .whereClause condition (by omega) rfl Kind.noConfusion)
    fun conditionIds => ?_
  refine Takes.pushList fun A hA => ?_
  obtain ⟨⟨⟨⟨⟨_, hhead⟩, htable⟩, _⟩, hlist⟩, hcondition⟩ := hA
  exact showsAll_cons.2 ⟨hhead, showsAll_cons.2 ⟨htable, showsAll_cons.2 ⟨hlist, hcondition⟩⟩⟩

theorem Command.reads_delete (table : TableName) (label : Option Alias) (condition : Option Expr) :
    (Command.delete table label condition).Reads := by
  intro source settings room hdepth
  rw [Command.depth] at hdepth
  have hrank : 2 ≤ (kindAt 0 (Piece.condition .WHERE condition ++ [])).rank :=
    rank_optional condition Expr.pieces (Nat.le_refl 2) (by decide)
  obtain ⟨hlight, hname, has, _⟩ := isFree_iff.1 (isFree_of_rank (Nat.le_trans (by decide) hrank))
  rw [statement, Command.pieces]
  refine Leads.currentWord? ?_
  show Leads source _ (Statement.delete _) _ _ _ _
  rw [Statement.delete, ← List.append_assoc table.pieces]
  refine Leads.expect (t := .word .DELETE) ?_
  refine Leads.expect (t := .word .FROM) ?_
  refine Leads.pushTag fun head => ?_
  rw [← bind_assoc tableName]
  refine Takes.seq (takes_aliasedTable table label (ne_of_isLight hlight).1 hname has)
    fun tableId => ?_
  rw [whereClause_eq, ← List.append_nil (Piece.condition .WHERE condition)]
  refine Takes.seq (takes_condition .WHERE .whereClause condition hdepth rfl Kind.noConfusion)
    fun conditionIds => ?_
  refine Takes.pushList fun A hA => ?_
  obtain ⟨⟨⟨_, hhead⟩, htable⟩, hcondition⟩ := hA
  exact showsAll_cons.2 ⟨hhead, showsAll_cons.2 ⟨htable, hcondition⟩⟩

/-! ### Defining tables -/

/-- Before the constraints of a column no expression goes on, and no type. -/
theorem front_constraints (constraints : List ColumnConstraint)
    (hrest : isFree (kindAt 0 rest) = true) :
    weight (constraints.flatMap ColumnConstraint.pieces ++ rest) = 0 ∧
      kindAt 0 (constraints.flatMap ColumnConstraint.pieces ++ rest) ≠ .identifier false ∧
      kindAt 0 (constraints.flatMap ColumnConstraint.pieces ++ rest) ≠ .symbol .leftParen := by
  obtain ⟨hlight, hname, _, _⟩ := isFree_iff.1 hrest
  cases constraints with
  | nil =>
    refine ⟨weight_of_isLight hlight, fun h => ?_, (ne_of_isLight hlight).2⟩
    rw [show kindAt 0 rest = _ from h] at hname
    cases hname
  | cons constraint constraints =>
    cases constraint <;>
      simp [ColumnConstraint.pieces, weight, infix?, isNegated, tailWeight, Kind.isNegatable,
        Kind.binary?]

/-- A constraint of a column is read back. -/
theorem takes_columnConstraint (constraint : ColumnConstraint) (hdepth : constraint.depth ≤ room)
    (hrest : weight rest = 0) :
    Takes source (fun _ => True) (columnConstraint? (contextOf settings room)) constraint.pieces rest
      fun o A => ∃ id, o = some id ∧ Shows source A id constraint.datum := by
  rw [columnConstraint?]
  refine Leads.currentWord? ?_
  cases constraint with
  | primaryKey =>
    refine Leads.advance ?_
    refine Leads.expect (t := .word .KEY) ?_
    refine Leads.pushTag fun id => ?_
    exact Takes.done fun A hA => ⟨id, rfl, hA.2⟩
  | unique =>
    refine Leads.advance ?_
    refine Leads.pushTag fun id => ?_
    exact Takes.done fun A hA => ⟨id, rfl, hA.2⟩
  | null =>
    refine Leads.advance ?_
    refine Leads.pushTag fun id => ?_
    exact Takes.done fun A hA => ⟨id, rfl, hA.2⟩
  | notNull =>
    refine Leads.advance ?_
    refine Leads.expect (t := .word .NULL) ?_
    refine Leads.pushTag fun null => ?_
    refine Leads.tagged (fun A hA => hA.2.single) fun id => ?_
    exact Takes.done fun A hA => ⟨id, rfl, hA.2⟩
  | defaultValue e =>
    refine Leads.advance ?_
    rw [← List.append_nil e.pieces]
    refine Takes.seq (takes_expression e hdepth hrest) fun value => ?_
    refine Leads.tagged (fun A hA => hA.2.single) fun id => ?_
    exact Takes.done fun A hA => ⟨id, rfl, hA.2⟩

/-- The constraints of a column are read back behind its name and its type. -/
theorem takes_constraints (constraints : List ColumnConstraint) {start : List Datum}
    (parts : List NodeId) (hdepth : deepest (constraints.map ColumnConstraint.depth) ≤ room)
    (hrest : kindAt 0 rest = .symbol .comma ∨ kindAt 0 rest = .symbol .rightParen) :
    Takes source (fun A => ShowsAll source A parts start)
      (iterate (extendColumn (contextOf settings room)) parts)
      (constraints.flatMap ColumnConstraint.pieces) rest
      fun ids A => ShowsAll source A ids (start ++ constraints.map ColumnConstraint.datum) := by
  have hfree : isFree (kindAt 0 rest) = true := by
    rcases hrest with h | h
    · rw [h]; rfl
    · rw [h]; rfl
  have hstart : Leads source (fun A => ShowsAll source A parts start)
      (iterate (extendColumn (contextOf settings room)) parts) []
      (constraints.flatMap ColumnConstraint.pieces ++ rest)
      (fun ids A => ShowsAll source A ids (start ++ [].map ColumnConstraint.datum))
      (iterate (extendColumn (contextOf settings room))) :=
    Leads.here fun A hA => by simpa using hA
  have hall := Leads.extendAll
    (P := fun done ids A => ShowsAll source A ids (start ++ done.map ColumnConstraint.datum))
    [] constraints hstart (fun before x behind hx ids => ?_)
    (fun x _ => by cases x <;> exact List.cons_ne_nil _ _)
  · refine Leads.close hall fun ids => ?_
    rw [extendColumn, columnConstraint?, bind_assoc]
    refine Leads.currentWord? ?_
    have hnone : (kindAt 0 ([] ++ rest)).word? = none := by
      rcases hrest with h | h
      · rw [List.nil_append, h]; rfl
      · rw [List.nil_append, h]; rfl
    rw [hnone]
    exact Takes.done fun A hA => ⟨rfl, hA⟩
  · have hmem : x ∈ constraints := by rw [hx]; simp
    have hle := le_deepest (List.mem_map_of_mem (f := ColumnConstraint.depth) hmem)
    rw [extendColumn, ← List.append_nil x.pieces]
    refine Takes.seq (takes_columnConstraint x (Nat.le_trans hle hdepth)
      (front_constraints behind hfree).1) fun o => ?_
    refine Leads.know (p := ∃ id, o = some id) (fun A hA => ⟨hA.2.choose, hA.2.choose_spec.1⟩) ?_
    rintro ⟨id, rfl⟩
    refine Takes.done fun A hA => ⟨_, rfl, ?_⟩
    obtain ⟨hids, id', hid', hshows⟩ := hA
    cases hid'
    rw [List.map_append, ← List.append_assoc]
    exact hids.append hshows.single

/-- The type of a column that may have none is read back. -/
theorem takes_columnType (type : Option TypeName) (hplain : kindAt 0 rest ≠ .identifier false)
    (hparen : kindAt 0 rest ≠ .symbol .leftParen) :
    Takes source (fun _ => True) columnType (type.elim [] TypeName.pieces) rest
      fun ids A => ShowsAll source A ids (type.map TypeName.datum).toList := by
  rw [columnType]
  refine Leads.atPlainIdentifier ?_
  cases type with
  | none =>
    have hfront : (kindAt 0 ([] ++ rest) == .identifier false) = false := beq_false_of_ne hplain
    rw [Option.elim_none, hfront]
    exact Takes.done fun A _ => showsAll_nil
  | some type =>
    have hfront : (kindAt 0 (type.pieces ++ rest) == .identifier false) = true := by
      rw [TypeName.pieces, List.cons_append, kindAt_zero_cons, PlainName.kind_piece]
      rfl
    rw [Option.elim_some, hfront, if_pos rfl, ← List.append_nil type.pieces]
    refine Takes.seq (takes_typeName type hplain hparen) fun id => ?_
    exact Takes.done fun A hA => hA.2.single

/-- A column is read back. -/
theorem takes_columnDefinition (name : Name) (type : Option TypeName)
    (constraints : List ColumnConstraint)
    (hdepth : deepest (constraints.map ColumnConstraint.depth) ≤ room)
    (hrest : kindAt 0 rest = .symbol .comma ∨ kindAt 0 rest = .symbol .rightParen) :
    Takes source (fun _ => True) (columnDefinition (contextOf settings room))
      (TableElement.column name type constraints).pieces rest
      fun id A => Shows source A id (TableElement.column name type constraints).datum := by
  have hfree : isFree (kindAt 0 rest) = true := by
    rcases hrest with h | h
    · rw [h]; rfl
    · rw [h]; rfl
  obtain ⟨_, hplain, hparen⟩ := front_constraints constraints hfree
  rw [columnDefinition_eq, TableElement.pieces]
  refine Takes.seqCons (takes_identifier name) fun nameId => ?_
  refine Takes.seq (takes_columnType type hplain hparen) fun types => ?_
  rw [← List.append_nil (constraints.flatMap _)]
  refine Takes.bind (P := fun ids A => ShowsAll source A ids ((.name name.text ::
      (type.map TypeName.datum).toList) ++ constraints.map ColumnConstraint.datum)) ?_ fun parts => ?_
  · exact (takes_constraints constraints _ hdepth hrest).weaken
      fun A hA => showsAll_cons.2 ⟨hA.1.2, hA.2⟩
  · exact Takes.pushList fun A hA => hA.2

/-- A column or a constraint of a table is read back. -/
theorem takes_tableElement (element : TableElement) (hdepth : element.depth ≤ room)
    (hrest : kindAt 0 rest = .symbol .comma ∨ kindAt 0 rest = .symbol .rightParen) :
    Takes source (fun _ => True) (tableElement (contextOf settings room)) element.pieces rest
      fun id A => Shows source A id element.datum := by
  rw [tableElement]
  refine Leads.currentWord? ?_
  cases element with
  | column name type constraints =>
    rw [TableElement.pieces, List.cons_append, kindAt_zero_cons, Name.kind_piece]
    show Leads source _ (columnDefinition _) _ _ _ _
    exact takes_columnDefinition name type constraints hdepth hrest
  | primaryKey columns =>
    rw [TableElement.pieces, List.cons_append, kindAt_zero_cons, kind_word]
    show Leads source _ tableConstraint _ _ _ _
    rw [tableConstraint_eq, constraintTag, bind_assoc]
    refine Leads.eat (t := .word .PRIMARY) ?_
    rw [if_pos rfl, bind_assoc]
    refine Leads.expect (t := .word .KEY) ?_
    rw [pure_bind]
    refine Leads.pushTag fun head => ?_
    refine Leads.expect (t := .symbol .leftParen) ?_
    exact (takes_taggedNames .primaryKey head columns).weaken fun A hA => hA.2
  | unique columns =>
    rw [TableElement.pieces, List.cons_append, kindAt_zero_cons, kind_word]
    show Leads source _ tableConstraint _ _ _ _
    rw [tableConstraint_eq, constraintTag, bind_assoc]
    refine Leads.skip (by simp) ?_
    rw [if_neg Bool.false_ne_true, bind_assoc]
    refine Leads.expect (t := .word .UNIQUE) ?_
    rw [pure_bind]
    refine Leads.pushTag fun head => ?_
    refine Leads.expect (t := .symbol .leftParen) ?_
    exact (takes_taggedNames .unique head columns).weaken fun A hA => hA.2

/-- A definition is read back if the rule for it, behind the word `CREATE`, reads the rest back. -/
theorem Command.reads_of_create {command : Command} (hpieces : command.pieces = word .CREATE :: ps)
    (h : ∀ (source : String) (settings : Settings) (room : Nat), command.depth ≤ room →
      Takes source (fun _ => True) (definition (contextOf settings room) (kindAt 0 ps).word?) ps []
        fun id A => Shows source A id command.datum) : command.Reads := by
  intro source settings room hdepth
  rw [statement, hpieces]
  refine Leads.currentWord? ?_
  show Leads source _ (Statement.create _) _ _ _ _
  rw [create_eq]
  refine Leads.expect (t := .word .CREATE) ?_
  refine Leads.currentWord? ?_
  rw [List.append_nil]
  exact h source settings room hdepth

theorem Command.reads_createTable (name : TableName) (elements : Several TableElement) :
    (Command.createTable name elements).Reads := by
  refine Command.reads_of_create rfl fun source settings room hdepth => ?_
  rw [kindAt_zero_cons, kind_word]
  show Leads source _ (Statement.createTable _) _ _ _ _
  rw [Statement.createTable]
  refine Leads.expect (t := .word .TABLE) ?_
  refine Leads.pushTag fun head => ?_
  refine Takes.seq (takes_tableName name (by simp)) fun nameId => ?_
  refine Leads.expect (t := .symbol .leftParen) ?_
  refine Takes.seq (P := fun ids A => ShowsAll source A ids (elements.toList.map TableElement.datum))
    (takes_separatedBy elements.first elements.more (fun element helement more hmore => ?_) (by simp))
    fun ids => ?_
  · have hle := le_deepest (List.mem_map_of_mem (f := TableElement.depth) helement)
    refine takes_tableElement element (Nat.le_trans hle hdepth) ?_
    rcases hmore with rfl | ⟨others, rfl⟩
    · exact .inr rfl
    · exact .inl rfl
  refine Leads.expect (t := .symbol .rightParen) ?_
  refine Leads.pushList (fun A hA => hA.2) fun list => ?_
  refine Takes.pushList fun A hA => ?_
  obtain ⟨⟨⟨⟨_, hhead⟩, hname⟩, _⟩, hlist⟩ := hA
  exact showsAll_cons.2 ⟨hhead, showsAll_cons.2 ⟨hname, hlist.single⟩⟩

/-! ### Indexes, views and dropping -/

theorem Command.reads_createIndex (unique : Bool) (name table : TableName)
    (terms : Several OrderingTerm) : (Command.createIndex unique name table terms).Reads := by
  refine Command.reads_of_create rfl fun source settings room hdepth => ?_
  have hrule : definition (contextOf settings room) (kindAt 0 (marked unique .UNIQUE ++
      (word .INDEX :: (name.pieces ++ (word .ON :: (table.pieces ++ (symbol .leftParen ::
        (commas (terms.toList.map OrderingTerm.pieces) ++ [symbol .rightParen])))))))).word? =
      Statement.createIndex (contextOf settings room) := by
    cases unique with
    | false =>
      rw [marked, if_neg Bool.false_ne_true, List.nil_append, kindAt_zero_cons, kind_word]
      rfl
    | true =>
      rw [marked, if_pos rfl, List.cons_append, kindAt_zero_cons, kind_word]
      rfl
  rw [hrule, createIndex_eq]
  refine Leads.pushTag fun head => ?_
  refine Takes.seq (takes_mark unique .UNIQUE .unique (by simp)) fun mark => ?_
  refine Leads.expect (t := .word .INDEX) ?_
  refine Takes.seq (takes_tableName name (by simp)) fun nameId => ?_
  refine Leads.expect (t := .word .ON) ?_
  refine Takes.seq (takes_tableName table (by simp)) fun tableId => ?_
  refine Leads.expect (t := .symbol .leftParen) ?_
  refine Takes.seq (takes_orderingTerms terms hdepth (by decide)) fun ids => ?_
  refine Leads.expect (t := .symbol .rightParen) ?_
  refine Leads.pushList (fun A hA => hA.2) fun list => ?_
  refine Takes.pushList fun A hA => ?_
  obtain ⟨⟨⟨⟨⟨⟨_, hhead⟩, hmark⟩, hname⟩, htable⟩, _⟩, hlist⟩ := hA
  exact ShowsAll.append (showsAll_cons.2 ⟨hhead, hmark⟩)
    (showsAll_cons.2 ⟨hname, showsAll_cons.2 ⟨htable, hlist.single⟩⟩)

theorem Command.reads_createView (name : TableName) (columns : Option (Several Name)) (q : Query) :
    (Command.createView name columns q).Reads := by
  refine Command.reads_of_create rfl fun source settings room hdepth => ?_
  rw [kindAt_zero_cons, kind_word]
  show Leads source _ (Statement.createView _) _ _ _ _
  rw [Statement.createView]
  refine Leads.expect (t := .word .VIEW) ?_
  refine Leads.pushTag fun head => ?_
  refine Takes.seq (takes_tableName name ?_) fun nameId => ?_
  · cases columns with
    | none => simp [Piece.columnNames]
    | some names => simp [Piece.columnNames, Piece.names]
  refine Takes.seq (takes_optionalColumnNames columns (by simp)) fun columnIds => ?_
  refine Leads.expect (t := .word .AS) ?_
  rw [← List.append_nil q.pieces]
  refine Takes.seq (q.reads.required hdepth (Nat.le_refl 8)) fun queryId => ?_
  refine Takes.pushList fun A hA => ?_
  obtain ⟨⟨⟨⟨_, hhead⟩, hname⟩, hcolumns⟩, hquery⟩ := hA
  exact (ShowsAll.append (showsAll_cons.2 ⟨hhead, hname.single⟩) hcolumns).append hquery.single

theorem Command.reads_drop (kind : ObjectKind) (ifExists : Bool) (name : TableName) :
    (Command.drop kind ifExists name).Reads := by
  intro source settings room hdepth
  have htag : (some kind.word).bind dropTag? = some kind.dropTag := by cases kind <;> rfl
  rw [statement, Command.pieces]
  refine Leads.currentWord? ?_
  show Leads source _ Statement.drop _ _ _ _
  rw [drop_eq]
  refine Leads.expect (t := .word .DROP) ?_
  refine Leads.currentWord? ?_
  rw [List.cons_append, kindAt_zero_cons, kind_word, Kind.word?, htag]
  refine Leads.advance ?_
  refine Leads.pushTag fun head => ?_
  refine Takes.seq (P := fun ids A => ShowsAll source A ids (Datum.marked ifExists .ifExists))
    ?_ fun mark => ?_
  · rw [existsMark]
    cases ifExists with
    | false =>
      refine (takes_behind_none (t := .word .IF) ?_).imp fun ids A hA => ?_
      · rw [TableName.pieces]
        cases name.schema <;> simp
      · rw [hA.1]
        exact showsAll_nil
    | true =>
      refine Takes.behind (t := .word .IF) ?_
      refine Leads.expect (t := .word .EXISTS) ?_
      refine Leads.pushTag fun id => ?_
      exact Takes.done fun A hA => hA.2.single
  rw [← List.append_nil name.pieces]
  refine Takes.seq (takes_tableName name Kind.noConfusion) fun nameId => ?_
  refine Takes.pushList fun A hA => ?_
  exact ShowsAll.append (showsAll_cons.2 ⟨hA.1.1.2, hA.1.2⟩) hA.2.single

/-! ### All statements -/

theorem Command.reads_query (q : Query) : (Command.query q).Reads := by
  intro source settings room hdepth
  rw [Command.depth] at hdepth
  obtain ⟨room, rfl⟩ : ∃ k, room = k + 1 := ⟨room - 1, by omega⟩
  have hquery := q.reads source settings room [] (by omega) (Nat.le_refl 8)
  have hstart := q.startsQuery []
  rw [statement, Command.pieces]
  refine Leads.currentWord? ?_
  unfold Kind.startsQuery at hstart
  split at hstart
  next h => rw [h]; exact hquery
  next h => rw [h]; exact hquery
  next h => rw [h]; exact hquery
  next => cases hstart

/-- Every statement is read back up to the end of the source. -/
theorem Command.reads (command : Command) : command.Reads := by
  cases command with
  | query q => exact reads_query q
  | insert table columns rows => exact reads_insert table columns rows
  | update table label assignments condition => exact reads_update table label assignments condition
  | delete table label condition => exact reads_delete table label condition
  | createTable name elements => exact reads_createTable name elements
  | createIndex unique name table terms => exact reads_createIndex unique name table terms
  | createView name columns q => exact reads_createView name columns q
  | drop kind ifExists name => exact reads_drop kind ifExists name

/-- The tree of a printed source whose pieces a statement takes, up to the end. -/
theorem parse_print {d : Datum}
    (h : Takes (print ps) (fun _ => True) (statement (context settings)) ps []
      fun id A => Shows (print ps) A id d) :
    ∃ tree, parse settings (print ps) = .ok tree ∧ tree.source = print ps ∧ tree.datum = d := by
  have hlaid := laid_print settings.overflow ps
  let start : ParseState := ⟨Stream.ofSource settings.overflow (print ps), {}⟩
  have hspelled : ∀ problem, start.stream.current.kind ≠ .problem problem := fun problem heq =>
    kindAt_ne_problem 0 ps problem ((hlaid.kind_peek 0).symm.trans heq)
  obtain ⟨root, s, hrun, hend, _, hroot⟩ :=
    h start (by rw [List.append_nil]; exact hlaid) sound_empty trivial
  have htree : tree settings (print ps) start =
      .ok ⟨print ps, s.arena, root⟩ ⟨s.stream, {}⟩ := by
    rw [tree, bind_of_ok hrun]
    rfl
  have hkind : s.stream.current.kind = .endOfInput := hend.kind_peek 0
  have heat : eat (.symbol .semicolon) ⟨s.stream, {}⟩ = .ok false ⟨s.stream, {}⟩ := by
    rw [eat, at?, bind_assoc, bind_of_ok (current_run _), pure_bind, hkind]
    rfl
  have hsingle : single settings (print ps) start = .ok ⟨print ps, s.arena, root⟩ ⟨s.stream, {}⟩ := by
    rw [single, bind_of_ok (checkSpelling_run hspelled), bind_of_ok htree, bind_of_ok heat, atEnd,
      bind_assoc, bind_of_ok (current_run _), pure_bind, Token.isEnd, hkind]
    rfl
  refine ⟨⟨print ps, s.arena, root⟩, ?_, rfl, hroot.read⟩
  show (Session.run _ (single settings (print ps))).1 = _
  have hstate : (Session.start settings (print ps)).state = start := rfl
  rw [Session.run, hstate, hsingle]

/-! ### Statements and expressions come back -/

/-- Every printed statement is parsed as its tree if the levels that it needs are allowed; those are
no more than its tokens. -/
theorem parse_print_command (command : Command) (settings : Settings)
    (h : command.depth ≤ settings.maxDepth) :
    command.depth ≤ command.pieces.length ∧
      ∃ tree, parse settings (print command.pieces) = .ok tree ∧ tree.datum = command.datum := by
  refine ⟨command.depth_le_length, ?_⟩
  obtain ⟨tree, hparse, _, hdatum⟩ := parse_print (command.reads _ settings settings.maxDepth h)
  exact ⟨tree, hparse, hdatum⟩

/-- A join with an alias and a join as a right operand, in a chain with both limits. -/
theorem parse_print_command_joins :
    ∃ tree, parse {}
        "SELECT * FROM ( a JOIN b ON 1 ) c LEFT JOIN ( d JOIN e ) EXCEPT VALUES ( 2 ) LIMIT 3 , 4" =
          .ok tree ∧
      tree.datum = .list [.tag .except,
        .list [.tag .select, .list [.tag .times], .tagged .fromClause [.tagged .join [.tag .leftJoin,
          .tagged .alias [.tagged .join [.tag .innerJoin, .name "a", .name "b",
            .tagged .onClause [.integer 1]], .name "c"],
          .tagged .join [.tag .innerJoin, .name "d", .name "e"]]]],
        .list [.tag .values, .list [.integer 2]],
        .tagged .limit [.integer 4], .tagged .offset [.integer 3]] := by
  let name (text : String) (hword : Lexeme.isWord text.toList = true)
      (hfree : Word.ofText? text.toList = none) : Name := .plain ⟨text.toList, hword, hfree⟩
  let number (n : Nat) (hlt : n < 2 ^ 63) : Expr := .integer ⟨n, hlt⟩
  let table (name : Name) : Source := .table ⟨none, name⟩
  let first : Source := .join .plain (table (name "a" (by decide) (by decide)))
    (table (name "b" (by decide) (by decide))) (some (number 1 (by decide)))
  let second : Source := .join .plain (table (name "d" (by decide) (by decide)))
    (table (name "e" (by decide) (by decide))) none
  let joined : Source := .join .left
    (.aliased first ⟨false, name "c" (by decide) (by decide)⟩) second none
  let command : Command := .query (.plain
    (.link (.core (.select .none ⟨.all, []⟩ [joined] none none none)) .except
      (.values ⟨⟨number 2 (by decide), []⟩, []⟩))
    ⟨none, .comma (number 3 (by decide)) (number 4 (by decide))⟩)
  have hprint : print command.pieces =
      "SELECT * FROM ( a JOIN b ON 1 ) c LEFT JOIN ( d JOIN e ) EXCEPT VALUES ( 2 ) LIMIT 3 , 4" := by
    decide +kernel
  rw [← hprint]
  exact (parse_print_command command {} (by decide)).2

/-- Every printed expression is parsed as its tree behind the word `SELECT` if the levels that it
needs are allowed; those are no more than the tokens. Among the expressions are all finite numbers
that are not negative. -/
theorem parse_print_select (e : Expr) (settings : Settings)
    (h : e.depth + 2 ≤ settings.maxDepth) :
    (∀ x : Binary64, x.isFinite = true → x.isNegative = false →
      ∃ l : FloatLiteral, (Expr.float l).datum = .float x) ∧
    e.depth + 2 ≤ (word .SELECT :: e.pieces).length ∧
      ∃ tree, parse settings (print (word .SELECT :: e.pieces)) = .ok tree ∧
        tree.datum = .tagged .select [.list [e.datum]] := by
  refine ⟨fun x hfinite hsign => ?_, ?_, ?_⟩
  · obtain ⟨l, rfl⟩ := FloatLiteral.exists_value_eq hfinite hsign
    exact ⟨l, rfl⟩
  · have hlength := e.depth_lt_length
    rw [List.length_cons]
    omega
  · let core : Core := .select .none ⟨.value e none, []⟩ [] none none none
    let command : Command := .query (.plain (.core core) ⟨none, .none⟩)
    have hpieces : command.pieces = word .SELECT :: e.pieces := by
      simp [command, core, Command.pieces, Query.pieces, Chain.pieces, Core.pieces, RowMark.pieces,
        Several.toList, Column.pieces, Piece.aliasOf, commas, separated, Source.piecesOfAll,
        Piece.sources, Piece.condition, Piece.groups, Ending.pieces, Piece.order, Limits.pieces]
    have hdepth : command.depth ≤ settings.maxDepth := by
      simp only [command, core, Command.depth, Query.depth, Chain.depth, Core.depth, deepest,
        Several.toList, List.map_cons, List.map_nil, List.foldr_cons, List.foldr_nil, Column.depth,
        Source.depthOfAll, levelsOf, Ending.depth, Limits.depth, Option.elim_none]
      omega
    obtain ⟨tree, hparse, _, hdatum⟩ :=
      parse_print (command.reads _ settings settings.maxDepth hdepth)
    rw [hpieces] at hparse
    exact ⟨tree, hparse, hdatum⟩

/-- A prefix operator that binds looser than its predicate, and a bound that has to stand in
parentheses. -/
theorem parse_print_select_bounds :
    ∃ tree, parse {} "SELECT NOT a NOT BETWEEN ( 1 IS 2 ) AND - 3 || 4" = .ok tree ∧
      tree.datum = .tagged .select [.list [.tagged .not [.tagged .not [.tagged .between [.name "a",
        .tagged .isSame [.integer 1, .integer 2],
        .tagged .concat [.tagged .minus [.integer 3], .integer 4]]]]]] := by
  let number (n : Nat) (hlt : n < 2 ^ 63) : Expr := .integer ⟨n, hlt⟩
  let name : Expr := .name (.plain ⟨['a'], by decide, by decide⟩) []
  let high : Expr := .infixed ⟨false, .symbol .concat, .concat, 15, rfl, nofun⟩
    (.prefixed ⟨.symbol .minus, .minus, 17, rfl⟩ (number 3 (by decide))) (number 4 (by decide))
  let e : Expr := .prefixed ⟨.word .NOT, .not, 5, rfl⟩
    (.between true name (.isSame false (number 1 (by decide)) (number 2 (by decide))) high)
  have hprint : print (word .SELECT :: e.pieces) =
      "SELECT NOT a NOT BETWEEN ( 1 IS 2 ) AND - 3 || 4" := by decide +kernel
  rw [← hprint]
  exact (parse_print_select e {} (by decide)).2.2

end TaggedSql
