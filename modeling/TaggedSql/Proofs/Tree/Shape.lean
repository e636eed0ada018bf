import Mathlib
import TaggedSql.Tree.Form

/-!
# The shapes of forms

The forms that stand for statements, as a grammar. Each constructor is one way to encode a part of a
statement: the tag that heads its list, then its items in their order, with optional parts left out.

* `Optional`, `Several`, `Pairs`, `Mark`: how often an item stands in a list;
* `Clause`, `ListClause`: a tag with one item, or with one or more;
* `IsExpression`, `IsSource`, `IsCore`, `IsChain`, `IsQuery`: the parts that may enclose each other;
* `IsStatement`: whole statements.
-/

namespace TaggedSql.Form

/-! ### Items of lists -/

section Items

variable (P : Form → Prop)

/-- At most one item. -/
inductive Optional : List Form → Prop where
  | absent : Optional []
  | present {f : Form} (h : P f) : Optional [f]

/-- One or more items. -/
inductive Several : List Form → Prop where
  | one {f : Form} (h : P f) : Several [f]
  | more {f : Form} {fs : List Form} (h : P f) (hs : Several fs) : Several (f :: fs)

/-- One or more pairs of items. -/
inductive Pairs : List Form → Prop where
  | one {f g : Form} (hf : P f) (hg : P g) : Pairs [f, g]
  | more {f g : Form} {fs : List Form} (hf : P f) (hg : P g) (hs : Pairs fs) : Pairs (f :: g :: fs)

/-- A tag and one item. -/
inductive Clause (t : Tag) : Form → Prop where
  | mk {f : Form} (h : P f) : Clause t (.list [.tag t, f])

/-- A tag and one or more items. -/
inductive ListClause (t : Tag) : Form → Prop where
  | mk {fs : List Form} (h : Several P fs) : ListClause t (.list (.tag t :: fs))

/-- Something with or without an alias. -/
inductive Aliased : Form → Prop where
  | plain {f : Form} (h : P f) : Aliased f
  | named {f : Form} (h : P f) (s : Span) : Aliased (.list [.tag .alias, f, .name s])

end Items

/-- At most one tag, out of several. -/
inductive Mark (ts : List Tag) : List Form → Prop where
  | absent : Mark ts []
  | present {t : Tag} (h : t ∈ ts) : Mark ts [.tag t]

section Items

variable {P : Form → Prop} {f g : Form} {fs gs : List Form}

theorem several_iff : Several P fs ↔ fs ≠ [] ∧ ∀ f ∈ fs, P f := by
  constructor
  · intro h
    induction h with
    | one h => simp [h]
    | more h _ ih => simpa [h] using ih.2
  · rintro ⟨hne, hall⟩
    induction fs with
    | nil => exact absurd rfl hne
    | cons f fs ih =>
      cases fs with
      | nil => exact .one (hall f List.mem_cons_self)
      | cons g gs =>
        refine .more (hall f List.mem_cons_self) (ih (List.cons_ne_nil _ _) ?_)
        exact fun h hh => hall h (List.mem_cons_of_mem _ hh)

/-- One more item behind the others. -/
theorem Several.concat (hs : Several P fs) (hf : P f) : Several P (fs ++ [f]) := by
  induction hs with
  | one h => exact .more h (.one hf)
  | more h _ ih => exact .more h ih

/-- One more pair behind the others. -/
theorem Pairs.concat (hs : Pairs P fs) (hf : P f) (hg : P g) : Pairs P (fs ++ [f, g]) := by
  induction hs with
  | one hf' hg' => exact .more hf' hg' (.one hf hg)
  | more hf' hg' _ ih => exact .more hf' hg' ih

end Items

/-! ### Names and types -/

/-- A name. -/
inductive IsName : Form → Prop where
  | mk (s : Span) : IsName (.name s)

/-- The name of a table, perhaps behind that of its schema. -/
inductive IsTableName : Form → Prop where
  | plain (s : Span) : IsTableName (.name s)
  | qualified (schema s : Span) : IsTableName (.list [.name schema, .name s])

/-- A type, perhaps with a size and a scale. -/
inductive IsType : Form → Prop where
  | plain (s : Span) : IsType (.name s)
  | sized (s : Span) (size : Int64) : IsType (.list [.tag .sizedType, .name s, .integer size])
  | scaled (s : Span) (size scale : Int64) :
      IsType (.list [.tag .sizedType, .name s, .integer size, .integer scale])

/-- Names for columns. -/
abbrev IsColumnNames : Form → Prop := ListClause IsName .columnNames

/-! ### Tags of one kind -/

/-- The tags that stand alone for a value. -/
def constants : List Tag :=
  [.null, .trueValue, .falseValue, .currentDate, .currentTime, .currentTimestamp]

/-- The tags of operators with one operand. -/
def unaryTags : List Tag := [.not, .minus, .plus, .bitNot]

/-- The tags of operators with two operands. -/
def binaryTags : List Tag :=
  [.or, .and, .eq, .ne, .lt, .le, .gt, .ge, .isSame, .glob, .regexp, .matches, .bitAnd, .bitOr,
   .shiftLeft, .shiftRight, .plus, .minus, .times, .divide, .modulo, .concat]

/-- The tags of aggregates with arguments. -/
def aggregateTags : List Tag := [.count, .avg, .sum, .min, .max, .total, .groupConcat]

/-- The tags of set operators. -/
def setTags : List Tag := [.union, .unionAll, .except, .intersect]

/-! ### Expressions and queries -/

mutual

/-- An expression. -/
inductive IsExpression : Form → Prop where
  | name (s : Span) : IsExpression (.name s)
  | string (s : Span) : IsExpression (.string s)
  | blob (s : Span) : IsExpression (.blob s)
  | integer (n : Int64) : IsExpression (.integer n)
  | float (x : Binary64) : IsExpression (.float x)
  | constant {t : Tag} (h : t ∈ constants) : IsExpression (.tag t)
  /-- A name behind the name that it belongs to. -/
  | qualified {s : Span} {names : List Form} (h : Several IsName names) :
      IsExpression (.list (.name s :: names))
  | positional : IsExpression (.list [.tag .parameter])
  | parameter (s : Span) : IsExpression (.list [.tag .parameter, .name s])
  | unary {t : Tag} {e : Form} (h : t ∈ unaryTags) (he : IsExpression e) :
      IsExpression (.list [.tag t, e])
  | binary {t : Tag} {l r : Form} (h : t ∈ binaryTags) (hl : IsExpression l)
      (hr : IsExpression r) : IsExpression (.list [.tag t, l, r])
  | between {e low high : Form} (he : IsExpression e) (hlow : IsExpression low)
      (hhigh : IsExpression high) : IsExpression (.list [.tag .between, e, low, high])
  | like {e pattern : Form} {escape : List Form} (he : IsExpression e)
      (hpattern : IsExpression pattern) (hescape : Optional IsExpression escape) :
      IsExpression (.list ([.tag .like, e, pattern] ++ escape))
  | inList {e : Form} {items : List Form} (he : IsExpression e)
      (hitems : ∀ i ∈ items, IsExpression i) : IsExpression (.list [.tag .inList, e, .list items])
  | inQuery {e q : Form} (he : IsExpression e) (hq : IsQuery q) :
      IsExpression (.list [.tag .inQuery, e, q])
  | caseOf {operand branches otherwise : List Form} (hoperand : Optional IsExpression operand)
      (hbranches : Pairs IsExpression branches)
      (hotherwise : Optional (Clause IsExpression .elseBranch) otherwise) :
      IsExpression (.list (.tag .caseOf :: operand ++ branches ++ otherwise))
  | cast {e type : Form} (he : IsExpression e) (htype : IsType type) :
      IsExpression (.list [.tag .cast, e, type])
  | existsQuery {q : Form} (hq : IsQuery q) : IsExpression (.list [.tag .existsQuery, q])
  | scalarSubquery {q : Form} (hq : IsQuery q) : IsExpression (.list [.tag .scalarSubquery, q])
  | function {s : Span} {mark arguments : List Form} (hmark : Mark [.distinct] mark)
      (harguments : ∀ e ∈ arguments, IsExpression e) :
      IsExpression (.list ([.tag .function, .name s] ++ mark ++ [.list arguments]))
  /-- The least or greatest value is an aggregate of at most one argument. -/
  | aggregate {t : Tag} {mark arguments condition : List Form} (h : t ∈ aggregateTags)
      (hmark : Mark [.distinct] mark) (harguments : ∀ e ∈ arguments, IsExpression e)
      (hextreme : t = .min ∨ t = .max → arguments.length ≤ 1)
      (hcondition : Optional (Clause IsExpression .whereClause) condition) :
      IsExpression
        (.list ([.tag .aggregateFunction, .tag t] ++ mark ++ [.list arguments] ++ condition))
  | countStar {condition : List Form}
      (hcondition : Optional (Clause IsExpression .whereClause) condition) :
      IsExpression (.list ([.tag .aggregateFunction, .tag .countStar, .list []] ++ condition))

/-- A source of rows: a table, a query or a join, with or without an alias. -/
inductive IsSource : Form → Prop where
  | table {f : Form} (h : IsTableName f) : IsSource f
  | query {q : Form} (hq : IsQuery q) : IsSource q
  | named {f : Form} (h : IsSource f) (s : Span) : IsSource (.list [.tag .alias, f, .name s])
  | join {t : Tag} {l r : Form} {condition : List Form} (h : t ∈ [Tag.innerJoin, .leftJoin])
      (hl : IsSource l) (hr : IsSource r)
      (hcondition : Optional (Clause IsExpression .onClause) condition) :
      IsSource (.list ([.tag .join, .tag t, l, r] ++ condition))

/-- A result column. -/
inductive IsColumn : Form → Prop where
  | expression {f : Form} (h : Aliased IsExpression f) : IsColumn f
  | all : IsColumn (.tag .times)
  | allOf (table : Span) : IsColumn (.list [.tag .times, .name table])

/-- A row of values. -/
inductive IsRow : Form → Prop where
  | mk {es : List Form} (h : Several IsExpression es) : IsRow (.list es)

/-- The items of a select core or of rows of values. -/
inductive IsCore : List Form → Prop where
  | select {mark columns sources condition groups having : List Form}
      (hmark : Mark [.distinct, .allRows] mark) (hcolumns : Several IsColumn columns)
      (hsources : Optional (ListClause IsSource .fromClause) sources)
      (hcondition : Optional (Clause IsExpression .whereClause) condition)
      (hgroups : Optional (ListClause IsExpression .groupBy) groups)
      (hhaving : Optional (Clause IsExpression .having) having) :
      IsCore (.tag .select :: mark ++ [.list columns] ++ sources ++ condition ++ groups ++ having)
  | values {rows : List Form} (h : Several IsRow rows) : IsCore (.tag .values :: rows)

/-- The items of cores joined by set operators, which group to the left. The operands have no order
and no limits. -/
inductive IsChain : List Form → Prop where
  | core {parts : List Form} (h : IsCore parts) : IsChain parts
  | compound {t : Tag} {left right : List Form} (h : t ∈ setTags) (hleft : IsChain left)
      (hright : IsCore right) : IsChain [.tag t, .list left, .list right]

/-- An expression to order by. -/
inductive IsTerm : Form → Prop where
  | plain {e : Form} (h : IsExpression e) : IsTerm e
  | ascending {e : Form} (h : IsExpression e) : IsTerm (.list [.tag .ascending, e])
  | descending {e : Form} (h : IsExpression e) : IsTerm (.list [.tag .descending, e])

/-- Limits: an offset stands only behind a limit. -/
inductive IsLimits : List Form → Prop where
  | absent : IsLimits []
  | limit {e : Form} (h : IsExpression e) : IsLimits [.list [.tag .limit, e]]
  | offset {e e' : Form} (h : IsExpression e) (h' : IsExpression e') :
      IsLimits [.list [.tag .limit, e], .list [.tag .offset, e']]

/-- A named query, perhaps with names for its columns. -/
inductive IsNamedQuery : Form → Prop where
  | mk {s : Span} {columns : List Form} {q : Form} (hcolumns : Optional IsColumnNames columns)
      (hq : IsQuery q) : IsNamedQuery (.list (.name s :: columns ++ [q]))

/-- A query: a chain of cores with its order and limits, perhaps behind named queries. -/
inductive IsQuery : Form → Prop where
  | chain {parts order limits : List Form} (hparts : IsChain parts)
      (horder : Optional (ListClause IsTerm .orderBy) order) (hlimits : IsLimits limits) :
      IsQuery (.list (parts ++ order ++ limits))
  | named {mark tables : List Form} {q : Form} (hmark : Mark [.recursive] mark)
      (htables : Several IsNamedQuery tables) (hq : IsQuery q) :
      IsQuery (.list (.tag .withClause :: mark ++ [.list tables, q]))

end

/-! ### Statements -/

/-- The condition of a statement or of a select core. -/
abbrev IsCondition : List Form → Prop := Optional (Clause IsExpression .whereClause)

/-- A column and its new value. -/
inductive IsAssignment : Form → Prop where
  | mk {e : Form} (s : Span) (h : IsExpression e) : IsAssignment (.list [.tag .eq, .name s, e])

/-- A constraint of a column. -/
inductive IsColumnConstraint : Form → Prop where
  | primaryKey : IsColumnConstraint (.tag .primaryKey)
  | unique : IsColumnConstraint (.tag .unique)
  | null : IsColumnConstraint (.tag .null)
  | notNull : IsColumnConstraint (.list [.tag .not, .tag .null])
  | defaultValue {f : Form} (h : Clause IsExpression .defaultValue f) : IsColumnConstraint f

/-- The items of a column of a table. -/
inductive IsColumnParts : List Form → Prop where
  | mk {s : Span} {type constraints : List Form} (htype : Optional IsType type)
      (hconstraints : ∀ f ∈ constraints, IsColumnConstraint f) :
      IsColumnParts (.name s :: type ++ constraints)

/-- A column or a constraint of a table. -/
inductive IsElement : Form → Prop where
  | column {parts : List Form} (h : IsColumnParts parts) : IsElement (.list parts)
  | constraint {t : Tag} {f : Form} (h : t ∈ [Tag.primaryKey, .unique])
      (hf : ListClause IsName t f) : IsElement f

/-- A whole statement. -/
inductive IsStatement : Form → Prop where
  | query {q : Form} (h : IsQuery q) : IsStatement q
  | insert {table q : Form} {columns : List Form} (htable : IsTableName table)
      (hcolumns : Optional IsColumnNames columns) (hq : IsQuery q) :
      IsStatement (.list ([.tag .insert, table] ++ columns ++ [q]))
  | update {table : Form} {assignments condition : List Form} (htable : Aliased IsTableName table)
      (hassignments : Several IsAssignment assignments) (hcondition : IsCondition condition) :
      IsStatement (.list ([.tag .update, table, .list assignments] ++ condition))
  | delete {table : Form} {condition : List Form} (htable : Aliased IsTableName table)
      (hcondition : IsCondition condition) :
      IsStatement (.list ([.tag .delete, table] ++ condition))
  | createTable {table : Form} {elements : List Form} (htable : IsTableName table)
      (helements : Several IsElement elements) :
      IsStatement (.list [.tag .createTable, table, .list elements])
  | createIndex {mark terms : List Form} {index table : Form} (hmark : Mark [.unique] mark)
      (hindex : IsTableName index) (htable : IsTableName table) (hterms : Several IsTerm terms) :
      IsStatement (.list (.tag .createIndex :: mark ++ [index, table, .list terms]))
  | createView {view q : Form} {columns : List Form} (hview : IsTableName view)
      (hcolumns : Optional IsColumnNames columns) (hq : IsQuery q) :
      IsStatement (.list ([.tag .createView, view] ++ columns ++ [q]))
  | drop {t : Tag} {mark : List Form} {object : Form}
      (h : t ∈ [Tag.dropTable, .dropIndex, .dropView]) (hmark : Mark [.ifExists] mark)
      (hobject : IsTableName object) : IsStatement (.list (.tag t :: mark ++ [object]))

/-! ### The heads of lists -/

theorem IsChain.exists_head {parts : List Form} (h : IsChain parts) :
    ∃ t items, parts = .tag t :: items ∧ t.isStatement = true := by
  cases h with
  | core h =>
    cases h with
    | select => exact ⟨.select, _, rfl, rfl⟩
    | values => exact ⟨.values, _, rfl, rfl⟩
  | @compound t left right h =>
    refine ⟨t, _, rfl, ?_⟩
    revert t
    decide

/-- A statement is a list that the tag of a statement heads. -/
theorem IsStatement.exists_head {f : Form} (h : IsStatement f) :
    ∃ t items, f = .list (.tag t :: items) ∧ t.isStatement = true := by
  cases h with
  | query hq =>
    cases hq with
    | chain hparts =>
      obtain ⟨t, items, rfl, ht⟩ := hparts.exists_head
      exact ⟨t, _, rfl, ht⟩
    | named => exact ⟨.withClause, _, rfl, rfl⟩
  | @drop t _ _ h =>
    refine ⟨t, _, rfl, ?_⟩
    revert t
    decide
  | _ => exact ⟨_, _, rfl, rfl⟩

end TaggedSql.Form
