import TaggedSql.Proofs.Expression.RoundTrip
import TaggedSql.Proofs.Statement.Syntax

/-!
# Printed clauses are read back

The parts of queries and statements that hold no query: names, aliases, conditions, result columns,
orders and limits. Optional clauses come in a fixed order; the rank of a token is its place in that
order, so that a clause is missing exactly where the next token ranks behind it.

* `Kind.rank`: the place of the clause that a token begins; what ends a query ranks last;
* `Piece.isFree`: the token can belong neither to an expression nor to a source before it;
* one statement for each clause.
-/

namespace TaggedSql

open Piece Rule Expression Arena Statement

/-! ### What follows -/

/-- The place of the clause that a token begins, in the order of clauses; what ends a query ranks
last. Tokens that begin no clause have no rank. -/
def Kind.rank : Kind → Nat
  | .word .FROM => 1
  | .word .WHERE => 2
  | .word .GROUP => 3
  | .word .HAVING => 4
  | .word .UNION | .word .EXCEPT | .word .INTERSECT => 5
  | .word .ORDER => 6
  | .word .LIMIT => 7
  | .symbol .rightParen | .symbol .semicolon | .endOfInput => 8
  | _ => 0

/-- Whether a token can belong neither to an expression nor to a source that stands before it. -/
def Piece.isFree (k : Kind) : Bool :=
  isLight k && !k.isIdentifier && k != .word .AS && k != .word .ON

theorem Piece.isFree_of_rank {k : Kind} (h : 1 ≤ k.rank) : isFree k = true := by
  unfold Kind.rank at h
  split at h
  all_goals first | decide | omega

/-- Tokens of different ranks differ. -/
theorem Kind.ne_of_rank {k k' : Kind} {n : Nat} (h : n ≤ k.rank) (hlt : k'.rank < n) : k ≠ k' := by
  rintro rfl
  omega

variable {source : String} {settings : Settings} {room : Nat} {ps rest : List Piece} {c : Context}

theorem Piece.isFree_iff {k : Kind} : isFree k = true ↔
    isLight k = true ∧ k.isIdentifier = false ∧ k ≠ .word .AS ∧ k ≠ .word .ON := by
  simp [isFree, and_assoc]

theorem Piece.isLight_of_isFree {k : Kind} (h : isFree k = true) : isLight k = true :=
  (isFree_iff.1 h).1

/-- What is light is no point and opens no parenthesis. -/
theorem Piece.ne_of_isLight {k : Kind} (h : isLight k = true) :
    k ≠ .symbol .dot ∧ k ≠ .symbol .leftParen := by
  simp only [isLight, Bool.and_eq_true, bne_iff_ne] at h
  exact ⟨h.1.1.2, h.1.2⟩

/-- Before an alias without its word, as before what is light, no expression goes on. -/
theorem weight_aliasOf (label : Option Alias) (hrest : isLight (kindAt 0 rest) = true) :
    weight (Piece.aliasOf label ++ rest) = 0 := by
  cases label with
  | none => exact weight_of_isLight hrest
  | some a =>
    obtain ⟨withWord, name⟩ := a
    cases withWord with
    | true => exact weight_of_isLight (by simp [Piece.aliasOf, Alias.pieces]; decide)
    | false =>
      show weight (name.piece :: rest) = 0
      have hparen := (ne_of_isLight hrest).2
      have hkind : kindAt 0 (name.piece :: rest) = .identifier name.isQuoted := by simp
      rw [weight, infix?, isNegated, hkind, tailWeight, hkind]
      cases name.isQuoted with
      | true => rfl
      | false =>
        show (if kindAt 1 (name.piece :: rest) = .symbol .leftParen then 20 else 0) = 0
        rw [kindAt_succ_cons, if_neg hparen]

theorem kindAt_aliasOf_ne_dot (label : Option Alias) (hrest : kindAt 0 rest ≠ .symbol .dot) :
    kindAt 0 (Piece.aliasOf label ++ rest) ≠ .symbol .dot := by
  cases label with
  | none => exact hrest
  | some a =>
    obtain ⟨withWord, name⟩ := a
    cases withWord <;> simp [Piece.aliasOf, Alias.pieces]

/-! ### Names and aliases -/

/-- The name of a table is read back. -/
theorem takes_tableName (t : TableName) (hrest : kindAt 0 rest ≠ .symbol .dot) :
    Takes source (fun _ => True) Query.tableName t.pieces rest
      fun id A => Shows source A id t.datum := by
  rw [Query.tableName, TableName.pieces, TableName.datum]
  cases t.schema with
  | none =>
    refine Takes.seq (takes_identifier t.name) fun first => ?_
    refine Leads.skip hrest ?_
    exact Takes.done fun A hA => hA.2
  | some schema =>
    refine Takes.seq (takes_identifier schema) fun first => ?_
    refine Leads.eat (t := .symbol .dot) ?_
    refine Takes.seq (takes_identifier t.name) fun name => ?_
    exact Takes.pushList fun A hA => showsAll_cons.2 ⟨hA.1.2, hA.2.single⟩

/-- A node with the alias that may follow is read back. -/
theorem takes_withAlias {d : Datum} (node : NodeId) (label : Option Alias)
    (hname : (kindAt 0 rest).isIdentifier = false) (has : kindAt 0 rest ≠ .word .AS) :
    Takes source (fun A => Shows source A node d) (Query.withAlias node) (Piece.aliasOf label) rest
      fun id A => Shows source A id (d.aliased label) := by
  rw [Query.withAlias, Query.alias?]
  cases label with
  | none =>
    rw [bind_assoc]
    refine Leads.skip has ?_
    rw [if_neg Bool.false_ne_true, bind_assoc]
    refine Leads.current fun t ht => ?_
    have hkind : t.kind.isIdentifier = false := by rw [ht]; exact hname
    rw [hkind, if_neg Bool.false_ne_true, pure_bind]
    exact Takes.done fun A hA => hA
  | some a =>
    have hnode : ∀ id, Takes source (fun A => Shows source A node d ∧
        Shows source A id (.name a.name.text)) (tagged .alias [node, id]) [] rest
        fun id A => Shows source A id (d.aliased (some a)) := fun id =>
      Takes.tagged fun A hA => showsAll_cons.2 ⟨hA.1, hA.2.single⟩
    obtain ⟨withWord, name⟩ := a
    rw [bind_assoc]
    cases withWord with
    | true =>
      refine Leads.eat (t := .word .AS) ?_
      rw [if_pos rfl, bind_assoc]
      show Leads source _ _ [name.piece] rest _ _
      refine Takes.seq (takes_identifier name) fun id => ?_
      rw [pure_bind]
      exact hnode id
    | false =>
      refine Leads.skip (by simp [Piece.aliasOf, Alias.pieces]) ?_
      rw [if_neg Bool.false_ne_true, bind_assoc]
      refine Leads.current fun t ht => ?_
      have hkind : t.kind.isIdentifier = true := by
        rw [ht]
        show (kindAt 0 (name.piece :: rest)).isIdentifier = true
        rw [kindAt_zero_cons, Name.kind_piece]
        rfl
      rw [hkind, if_pos rfl, bind_assoc]
      show Leads source _ _ [name.piece] rest _ _
      refine Takes.seq (takes_identifier name) fun id => ?_
      rw [pure_bind]
      exact hnode id

/-- Names in parentheses are read back. -/
theorem takes_identifiers (names : Several Name) (hrest : kindAt 0 rest ≠ .symbol .comma) :
    Takes source (fun _ => True) identifiers (commas (names.toList.map fun n => [n.piece])) rest
      fun ids A => ShowsAll source A ids (Datum.names names) :=
  takes_separatedBy names.first names.more (fun n _ _ _ => takes_identifier n) hrest

/-- Names up to the closing parenthesis are read back behind the tag of their list. -/
theorem takes_taggedNames (tag : Tag) (head : NodeId) (names : Several Name) :
    Takes source (fun A => Shows source A head (.tag tag)) (do
        let ids ← identifiers
        expect (.symbol .rightParen)
        pushList (head :: ids))
      (commas (names.toList.map fun n => [n.piece]) ++ [symbol .rightParen]) rest
      fun id A => Shows source A id (.tagged tag (Datum.names names)) := by
  refine Takes.seq (takes_identifiers names (by simp)) fun ids => ?_
  refine Leads.expect (t := .symbol .rightParen) ?_
  exact Takes.pushList fun A hA => showsAll_cons.2 hA

/-- Column names are read back. -/
theorem takes_columnNames (names : Several Name) :
    Takes source (fun _ => True) Query.columnNames (Piece.names names) rest
      fun id A => Shows source A id (.tagged .columnNames (Datum.names names)) := by
  rw [Query.columnNames]
  refine Leads.expect (t := .symbol .leftParen) ?_
  refine Leads.pushTag fun head => ?_
  exact (takes_taggedNames .columnNames head names).weaken fun A hA => hA.2

/-- Column names that may be missing are read back. -/
theorem takes_optionalColumnNames (names : Option (Several Name))
    (hrest : kindAt 0 rest ≠ .symbol .leftParen) :
    Takes source (fun _ => True) Query.optionalColumnNames (Piece.columnNames names) rest
      fun ids A => ShowsAll source A ids (Datum.columnNames names) := by
  rw [Query.optionalColumnNames]
  refine Leads.at? ?_
  cases names with
  | none =>
    have hfront : (kindAt 0 (Piece.columnNames none ++ rest) == (Terminal.symbol .leftParen).kind) =
        false := beq_false_of_ne hrest
    rw [hfront]
    exact Takes.done fun A _ => showsAll_nil
  | some names =>
    show Leads source _ (Query.columnNames >>= _) (Piece.names names) rest _ _
    rw [← List.append_nil (Piece.names names)]
    refine Takes.seq (takes_columnNames names) fun id => ?_
    exact Takes.done fun A hA => hA.2.single

/-! ### Conditions, orders and limits -/

/-- An expression of a statement is read back on a level of its own. -/
theorem takes_expression (e : Expr) (hdepth : e.depth < room) (hrest : weight rest = 0) :
    Takes source (fun _ => True) (contextOf settings room).expression e.pieces rest
      fun id A => Shows source A id e.datum := e.reads.alone hdepth hrest

/-- A condition that may be missing is read back. -/
theorem takes_condition (w : Word) (t : Tag) (e : Option Expr) (hdepth : levelsOf e ≤ room)
    (hrest : isLight (kindAt 0 rest) = true) (hword : kindAt 0 rest ≠ .word w) :
    Takes source (fun _ => True) (Query.condition w t (contextOf settings room))
      (Piece.condition w e) rest fun ids A => ShowsAll source A ids (Datum.condition t e) := by
  cases e with
  | none =>
    refine (takes_behind_none hword).imp fun ids A h => ?_
    rw [h.1]
    exact showsAll_nil
  | some e =>
    refine Takes.behind (t := .word w) ?_
    show Takes source _ _ e.pieces rest _
    rw [← List.append_nil e.pieces]
    refine Takes.seq (takes_expression e hdepth (weight_of_isLight hrest)) fun id => ?_
    refine Leads.tagged (fun A hA => hA.2.single) fun clause => ?_
    exact Takes.done fun A hA => hA.2.single

/-- A word that may be missing is read back as its tag. -/
theorem takes_mark (b : Bool) (w : Word) (t : Tag) (hrest : kindAt 0 rest ≠ .word w) :
    Takes source (fun _ => True) (Query.mark w t) (marked b w) rest
      fun ids A => ShowsAll source A ids (Datum.marked b t) := by
  cases b with
  | false =>
    refine (takes_behind_none hrest).imp fun ids A hA => ?_
    rw [hA.1]
    exact showsAll_nil
  | true =>
    refine Takes.behind (t := .word w) ?_
    refine Leads.pushTag fun id => ?_
    exact Takes.done fun A hA => hA.2.single

/-- One or more expressions of a statement are read back. -/
theorem takes_several (es : Several Expr) (hdepth : levelsOfAll es ≤ room)
    (hrest : isLight (kindAt 0 rest) = true) (hcomma : kindAt 0 rest ≠ .symbol .comma) :
    Takes source (fun _ => True) (contextOf settings room).expressions
      (commas (es.toList.map Expr.pieces)) rest
      fun ids A => ShowsAll source A ids (es.toList.map Expr.datum) := by
  refine takes_separatedBy es.first es.more (fun e he more hmore => ?_) hcomma
  have hlt : e.depth + 1 ≤ levelsOfAll es :=
    le_deepest (List.mem_map_of_mem (f := fun e : Expr => e.depth + 1) he)
  refine takes_expression e (by omega) ?_
  rcases hmore with rfl | ⟨others, rfl⟩
  · exact weight_of_isLight hrest
  · rfl

/-- A grouping that may be missing is read back. -/
theorem takes_groupByClause (groups : Option (Several Expr))
    (hdepth : groups.elim 0 levelsOfAll ≤ room) (hrest : 4 ≤ (kindAt 0 rest).rank) :
    Takes source (fun _ => True) (Query.groupByClause (contextOf settings room))
      (Piece.groups groups) rest fun ids A => ShowsAll source A ids (Datum.groups groups) := by
  rw [Query.groupByClause_eq]
  cases groups with
  | none =>
    refine (takes_behind_none (t := .word .GROUP) (Kind.ne_of_rank hrest (by decide))).imp
      fun ids A h => ?_
    rw [h.1]
    exact showsAll_nil
  | some keys =>
    refine Takes.behind (t := .word .GROUP) ?_
    refine Leads.expect (t := .word .BY) ?_
    refine Leads.pushTag fun head => ?_
    rw [← List.append_nil (commas _)]
    refine Takes.seq (takes_several keys hdepth ?_ ?_) fun ids => ?_
    · exact isLight_of_isFree (isFree_of_rank (Nat.le_trans (by decide) hrest))
    · exact Kind.ne_of_rank hrest (by decide)
    refine Leads.pushList (fun A hA => showsAll_cons.2 ⟨hA.1.2, hA.2⟩) fun clause => ?_
    exact Takes.done fun A hA => hA.2.single

/-- An ordering term is read back. -/
theorem takes_orderingTerm (t : OrderingTerm) (hdepth : t.key.depth < room)
    (hrest : isLight (kindAt 0 rest) = true) (hasc : kindAt 0 rest ≠ .word .ASC)
    (hdesc : kindAt 0 rest ≠ .word .DESC) :
    Takes source (fun _ => True) (Query.orderingTerm (contextOf settings room)) t.pieces rest
      fun id A => Shows source A id t.datum := by
  obtain ⟨key, direction⟩ := t
  rw [Query.orderingTerm]
  cases direction with
  | none =>
    refine Takes.seq (takes_expression key hdepth (weight_of_isLight hrest)) fun id => ?_
    refine Leads.currentWord? ?_
    rw [List.nil_append]
    split
    next h => exact absurd (Kind.eq_word_of_word? h) hasc
    next h => exact absurd (Kind.eq_word_of_word? h) hdesc
    next => exact Takes.done fun A hA => hA.2
  | ascending =>
    refine Takes.seq (takes_expression key hdepth ?_) fun id => ?_
    · exact weight_of_isLight (by simp; decide)
    refine Leads.currentWord? ?_
    rw [List.singleton_append, kindAt_zero_cons, kind_word]
    refine Leads.advance ?_
    exact Takes.tagged fun A hA => hA.2.single
  | descending =>
    refine Takes.seq (takes_expression key hdepth ?_) fun id => ?_
    · exact weight_of_isLight (by simp; decide)
    refine Leads.currentWord? ?_
    rw [List.singleton_append, kindAt_zero_cons, kind_word]
    refine Leads.advance ?_
    exact Takes.tagged fun A hA => hA.2.single

/-- One or more ordering terms are read back. -/
theorem takes_orderingTerms (terms : Several OrderingTerm) (hdepth : termsDepth terms ≤ room)
    (hrest : 7 ≤ (kindAt 0 rest).rank) :
    Takes source (fun _ => True) (commaSeparated (Query.orderingTerm (contextOf settings room)))
      (commas (terms.toList.map OrderingTerm.pieces)) rest
      fun ids A => ShowsAll source A ids (terms.toList.map OrderingTerm.datum) := by
  refine takes_separatedBy terms.first terms.more (fun t ht more hmore => ?_)
    (Kind.ne_of_rank hrest (by decide))
  have hlt : t.key.depth + 1 ≤ termsDepth terms :=
    le_deepest (List.mem_map_of_mem (f := fun t : OrderingTerm => t.key.depth + 1) ht)
  rcases hmore with rfl | ⟨others, rfl⟩
  · have hlight := isLight_of_isFree (isFree_of_rank (Nat.le_trans (by decide) hrest))
    exact takes_orderingTerm t (by omega) hlight (Kind.ne_of_rank hrest (by decide))
      (Kind.ne_of_rank hrest (by decide))
  · exact takes_orderingTerm t (by omega) rfl nofun nofun

/-- An order that may be missing is read back. -/
theorem takes_orderByClause (order : Option (Several OrderingTerm))
    (hdepth : order.elim 0 termsDepth ≤ room) (hrest : 7 ≤ (kindAt 0 rest).rank) :
    Takes source (fun _ => True) (Query.orderByClause (contextOf settings room))
      (Piece.order order) rest fun ids A => ShowsAll source A ids (Datum.order order) := by
  rw [Query.orderByClause_eq]
  cases order with
  | none =>
    refine (takes_behind_none (t := .word .ORDER) (Kind.ne_of_rank hrest (by decide))).imp
      fun ids A h => ?_
    rw [h.1]
    exact showsAll_nil
  | some terms =>
    refine Takes.behind (t := .word .ORDER) ?_
    refine Leads.expect (t := .word .BY) ?_
    refine Leads.pushTag fun head => ?_
    rw [← List.append_nil (commas _)]
    refine Takes.seq (takes_orderingTerms terms hdepth hrest) fun ids => ?_
    refine Leads.pushList (fun A hA => showsAll_cons.2 ⟨hA.1.2, hA.2⟩) fun clause => ?_
    exact Takes.done fun A hA => hA.2.single

/-- Limits are read back; behind a comma stands the number of rows. -/
theorem takes_limitClause (limits : Limits) (hdepth : limits.depth ≤ room)
    (hrest : 8 ≤ (kindAt 0 rest).rank) :
    Takes source (fun _ => True) (Query.limitClause (contextOf settings room)) limits.pieces rest
      fun ids A => ShowsAll source A ids limits.data := by
  have hweight : weight rest = 0 :=
    weight_of_isLight (isLight_of_isFree (isFree_of_rank (Nat.le_trans (by decide) hrest)))
  rw [Query.limitClause]
  cases limits with
  | none =>
    refine Leads.skip (t := .word .LIMIT) (Kind.ne_of_rank hrest (by decide)) ?_
    exact Takes.done fun A _ => showsAll_nil
  | plain number =>
    refine Leads.eat (t := .word .LIMIT) ?_
    rw [if_pos rfl, ← List.append_nil number.pieces]
    refine Takes.seq (takes_expression number hdepth hweight) fun id => ?_
    refine Leads.skip (t := .symbol .comma) (Kind.ne_of_rank hrest (by decide)) ?_
    refine Leads.skip (t := .word .OFFSET) (Kind.ne_of_rank hrest (by decide)) ?_
    refine Leads.tagged (fun A hA => hA.2.single) fun clause => ?_
    exact Takes.done fun A hA => hA.2.single
  | offset number skipped =>
    rw [Limits.depth] at hdepth
    refine Leads.eat (t := .word .LIMIT) ?_
    rw [if_pos rfl]
    refine Takes.seq (takes_expression number (by omega) ?_) fun id => ?_
    · exact weight_of_isLight (by simp; decide)
    refine Leads.skip (by simp) ?_
    refine Leads.eat (t := .word .OFFSET) ?_
    rw [if_pos rfl, ← List.append_nil skipped.pieces]
    refine Takes.seq (takes_expression skipped (by omega) hweight) fun id' => ?_
    refine Leads.tagged (fun A hA => hA.1.2.single) fun limit => ?_
    refine Leads.tagged (fun A hA => hA.1.2.single) fun offset => ?_
    exact Takes.done fun A hA => showsAll_cons.2 ⟨hA.1.2, hA.2.single⟩
  | comma skipped number =>
    rw [Limits.depth] at hdepth
    refine Leads.eat (t := .word .LIMIT) ?_
    rw [if_pos rfl]
    refine Takes.seq (takes_expression skipped (by omega) rfl) fun id => ?_
    refine Leads.eat (t := .symbol .comma) ?_
    rw [if_pos rfl, ← List.append_nil number.pieces]
    refine Takes.seq (takes_expression number (by omega) hweight) fun id' => ?_
    refine Leads.tagged (fun A hA => hA.2.single) fun limit => ?_
    refine Leads.tagged (fun A hA => hA.1.1.2.single) fun offset => ?_
    exact Takes.done fun A hA => showsAll_cons.2 ⟨hA.1.2, hA.2.single⟩

/-! ### Result columns -/

/-- Whether pieces begin with a name, a point and a star. -/
def Piece.startsAllOf (ps : List Piece) : Bool :=
  (kindAt 0 ps).isIdentifier && kindAt 1 ps == .symbol .dot && kindAt 2 ps == .symbol .star

theorem startsAllOf_guarded (position level : Nat)
    (h : ∀ rest, kindAt 0 rest ≠ .symbol .dot → startsAllOf (ps ++ rest) = false)
    (hrest : kindAt 0 rest ≠ .symbol .dot) :
    startsAllOf (guarded position level ps ++ rest) = false := by
  rw [guarded]
  split
  next => rfl
  next => exact h rest hrest

theorem kindAt_negation_ne_dot {t : Terminal} (negated : Bool) (h : t.kind ≠ .symbol .dot) :
    kindAt 0 (negation negated ++ terminal t :: ps) ≠ .symbol .dot := by
  cases negated with
  | false => simpa [negation] using h
  | true => simp [negation]

/-- No printed expression is taken for all columns of a table. -/
theorem Expr.startsAllOf : (e : Expr) → (rest : List Piece) → kindAt 0 rest ≠ .symbol .dot →
    startsAllOf (e.pieces ++ rest) = false
  | .integer _, _, _ | .float _, _, _ | .string _, _, _ | .blob _, _, _ | .parameter none, _, _
  | .parameter (some _), _, _ => rfl
  | .name first more, rest, hrest => by
    cases more with
    | nil => simp [Expr.pieces, separated, Piece.startsAllOf, hrest]
    | cons second more => simp [Expr.pieces, separated, Piece.startsAllOf]
  | .constant k, rest, _ => by
    simp [Expr.pieces, Piece.startsAllOf, Kind.isIdentifier]
  | .prefixed operator e, rest, _ => by
    have hkind : operator.symbol.kind.isIdentifier = false := by cases operator.symbol <;> rfl
    simp [Expr.pieces, Piece.startsAllOf, hkind]
  | .infixed operator left right, rest, _ => by
    rw [Expr.pieces, InfixOperator.pieces, List.append_assoc, List.append_assoc, List.append_assoc]
    refine startsAllOf_guarded _ _ left.startsAllOf (kindAt_negation_ne_dot _ ?_)
    intro h
    have hbinary := operator.binary
    rw [h] at hbinary
    cases hbinary
  | .isSame _ left _, rest, _ => by
    rw [Expr.pieces, List.append_assoc]
    exact startsAllOf_guarded _ _ left.startsAllOf (by simp)
  | .inList negated left _, rest, _ => by
    rw [Expr.pieces, List.append_assoc, List.append_assoc]
    exact startsAllOf_guarded _ _ left.startsAllOf
      (kindAt_negation_ne_dot (t := .word .IN) negated (by simp))
  | .between negated left _ _, rest, _ => by
    rw [Expr.pieces, List.append_assoc, List.append_assoc]
    exact startsAllOf_guarded _ _ left.startsAllOf
      (kindAt_negation_ne_dot (t := .word .BETWEEN) negated (by simp))
  | .like negated left _ _, rest, _ => by
    rw [Expr.pieces, List.append_assoc, List.append_assoc]
    exact startsAllOf_guarded _ _ left.startsAllOf
      (kindAt_negation_ne_dot (t := .word .LIKE) negated (by simp))
  | .caseOf _ _, rest, _ | .cast _ _, rest, _ => by
    simp [Expr.pieces, Piece.startsAllOf, Kind.isIdentifier]
  | .function callee _ _, rest, _ | .extremum callee _ _ _ _ _, rest, _
  | .aggregate callee _ _ _ _, rest, _ | .columnExtremum callee _ _ _ _, rest, _ => by
    simp [Expr.pieces, Piece.call, Piece.startsAllOf]
  | .countRows callee _ _, rest, _ => by
    simp [Expr.pieces, Piece.startsAllOf]

/-- A result column is read back. -/
theorem takes_resultColumn (column : Column) (hdepth : column.depth ≤ room)
    (hrest : isFree (kindAt 0 rest) = true) :
    Takes source (fun _ => True) (Query.resultColumn (contextOf settings room)) column.pieces rest
      fun id A => Shows source A id column.datum := by
  rw [Query.resultColumn]
  cases column with
  | all =>
    refine Leads.eat (t := .symbol .star) ?_
    refine Takes.of_bind_pure (Leads.pushTag fun id => ?_)
    exact Takes.done fun A hA => hA.2
  | allOf table =>
    refine Leads.skip (by simp [Column.pieces]) ?_
    rw [if_neg Bool.false_ne_true]
    refine Leads.current fun t ht => ?_
    refine Leads.peek fun second hsecond => ?_
    refine Leads.peek fun third hthird => ?_
    rw [if_pos (by rw [ht, hsecond, hthird]; simp [Column.pieces, Kind.isIdentifier])]
    refine Takes.seq (takes_identifier table) fun id => ?_
    refine Leads.advance ?_
    refine Leads.advance ?_
    refine Leads.pushTag fun head => ?_
    exact Takes.pushList fun A hA => showsAll_cons.2 ⟨hA.2, hA.1.2.single⟩
  | value e label =>
    obtain ⟨hlight, hname, has, _⟩ := isFree_iff.1 hrest
    have hdot := kindAt_aliasOf_ne_dot label (ne_of_isLight hlight).1
    have hstar : kindAt 0 (e.pieces ++ (Piece.aliasOf label ++ rest)) ≠ .symbol .star := by
      intro h
      have hstart := e.startsExpression (Piece.aliasOf label ++ rest)
      rw [h] at hstart
      cases hstart
    have hallOf := e.startsAllOf _ hdot
    rw [Piece.startsAllOf] at hallOf
    rw [Column.pieces]
    refine Leads.skip (by rw [List.append_assoc]; exact hstar) ?_
    rw [if_neg Bool.false_ne_true]
    refine Leads.current fun t ht => ?_
    refine Leads.peek fun second hsecond => ?_
    refine Leads.peek fun third hthird => ?_
    rw [List.append_assoc] at ht hsecond hthird
    rw [ht, hsecond, hthird, hallOf, if_neg Bool.false_ne_true]
    refine Takes.seq (takes_expression e hdepth (weight_aliasOf label hlight)) fun id => ?_
    exact (takes_withAlias id label hname has).weaken fun A hA => hA.2

/-- A row mark is read back. -/
theorem takes_rowMark (mark : RowMark) (hdistinct : kindAt 0 rest ≠ .word .DISTINCT)
    (hall : kindAt 0 rest ≠ .word .ALL) :
    Takes source (fun _ => True) Query.rowMark mark.pieces rest
      fun ids A => ShowsAll source A ids mark.data := by
  rw [Query.rowMark]
  cases mark with
  | none =>
    refine Leads.skip (t := .word .DISTINCT) hdistinct ?_
    refine Leads.skip (t := .word .ALL) hall ?_
    exact Takes.done fun A _ => showsAll_nil
  | distinct =>
    refine Leads.eat (t := .word .DISTINCT) ?_
    refine Leads.pushTag fun id => ?_
    exact Takes.done fun A hA => hA.2.single
  | all =>
    refine Leads.skip (by simp [RowMark.pieces]) ?_
    refine Leads.eat (t := .word .ALL) ?_
    refine Leads.pushTag fun id => ?_
    exact Takes.done fun A hA => hA.2.single

end TaggedSql
