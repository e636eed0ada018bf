import TaggedSql.Proofs.Expression.Syntax

/-!
# The syntax of statements

Queries and statements as a program would build them, over the expressions of
`TaggedSql.Proofs.Expression.Syntax`. As there, each has printed pieces, the datum that the tree of
the printed text has to show, and the number of levels that reading it needs.

* `Source`, `Core`, `Chain`, `Query`, `Tables`: queries and what they are made of;
* `Command`: statements;
* `Command.pieces`, `Command.datum`, `Command.depth`;
* `Command.depth_le_length`: a statement needs no more levels than it has pieces.
-/

namespace TaggedSql

open Piece

/-- One thing or more. -/
structure Several (α : Type) where
  first : α
  more : List α

/-- All of one thing or more. -/
def Several.toList {α : Type} (xs : Several α) : List α := xs.first :: xs.more

/-- The greatest of the levels that things need. -/
def deepest (levels : List Nat) : Nat := levels.foldr max 0

theorem le_deepest {n : Nat} {levels : List Nat} (h : n ∈ levels) : n ≤ deepest levels := by
  induction levels with
  | nil => cases h
  | cons m levels ih =>
    show n ≤ max m (deepest levels)
    rcases List.mem_cons.1 h with rfl | h
    · exact Nat.le_max_left _ _
    · exact Nat.le_trans (ih h) (Nat.le_max_right _ _)

/-! ### Names and small parts -/

/-- The name of a table, perhaps behind that of its schema. -/
structure TableName where
  schema : Option Name
  name : Name

/-- The pieces of the name of a table. -/
def TableName.pieces (t : TableName) : List Piece :=
  match t.schema with
  | none => [t.name.piece]
  | some schema => [schema.piece, symbol .dot, t.name.piece]

/-- The datum of the name of a table. -/
def TableName.datum (t : TableName) : Datum :=
  match t.schema with
  | none => .name t.name.text
  | some schema => .list [.name schema.text, .name t.name.text]

/-- An alias, with or without the word before it. -/
structure Alias where
  withWord : Bool
  name : Name

/-- The pieces of an alias. -/
def Alias.pieces (a : Alias) : List Piece :=
  (if a.withWord then [word .AS] else []) ++ [a.name.piece]

/-- The pieces of an alias that may be missing. -/
def Piece.aliasOf (a : Option Alias) : List Piece := a.elim [] Alias.pieces

/-- A datum with the alias that may follow. -/
def Datum.aliased (d : Datum) (a : Option Alias) : Datum :=
  a.elim d fun a => .tagged .alias [d, .name a.name.text]

/-- The pieces of names in parentheses. -/
def Piece.names (names : Several Name) : List Piece :=
  symbol .leftParen :: (commas (names.toList.map fun n => [n.piece]) ++ [symbol .rightParen])

/-- The pieces of column names, if there are any. -/
def Piece.columnNames (names : Option (Several Name)) : List Piece := names.elim [] Piece.names

/-- The data of names. -/
def Datum.names (names : Several Name) : List Datum := names.toList.map fun n => .name n.text

/-- The data of column names, if there are any. -/
def Datum.columnNames (names : Option (Several Name)) : List Datum :=
  names.elim [] fun names => [.tagged .columnNames (Datum.names names)]

/-- The pieces of a condition behind a word, if there is one. -/
def Piece.condition (w : Word) (e : Option Expr) : List Piece :=
  e.elim [] fun e => word w :: e.pieces

/-- The data of a condition, if there is one. -/
def Datum.condition (t : Tag) (e : Option Expr) : List Datum :=
  e.elim [] fun e => [.tagged t [e.datum]]

/-- The pieces of a word that may be missing. -/
def Piece.marked (b : Bool) (w : Word) : List Piece := if b then [word w] else []

/-- The data of a word that may be missing. -/
def Datum.marked (b : Bool) (t : Tag) : List Datum := if b then [.tag t] else []

/-! ### Columns, orders and limits -/

/-- A result column: all columns, all columns of a table, or an expression with or without an
alias. -/
inductive Column where
  | all
  | allOf (table : Name)
  | value (e : Expr) (label : Option Alias)

/-- The pieces of a result column. -/
def Column.pieces : Column → List Piece
  | .all => [symbol .star]
  | .allOf table => [table.piece, symbol .dot, symbol .star]
  | .value e a => e.pieces ++ Piece.aliasOf a

/-- The datum of a result column. -/
def Column.datum : Column → Datum
  | .all => .tag .times
  | .allOf table => .tagged .times [.name table.text]
  | .value e a => e.datum.aliased a

/-- The levels that a result column needs. -/
def Column.depth : Column → Nat
  | .all | .allOf _ => 0
  | .value e _ => e.depth + 1

/-- The word that keeps or drops repeated rows. -/
inductive RowMark where
  | none
  | distinct
  | all

/-- The pieces of a row mark. -/
def RowMark.pieces : RowMark → List Piece
  | .none => []
  | .distinct => [word .DISTINCT]
  | .all => [word .ALL]

/-- The data of a row mark. -/
def RowMark.data : RowMark → List Datum
  | .none => []
  | .distinct => [.tag .distinct]
  | .all => [.tag .allRows]

/-- The direction of an order. -/
inductive Direction where
  | none
  | ascending
  | descending

/-- An expression to order by. -/
structure OrderingTerm where
  key : Expr
  direction : Direction

/-- The pieces of an ordering term. -/
def OrderingTerm.pieces (t : OrderingTerm) : List Piece :=
  t.key.pieces ++
    match t.direction with
    | .none => []
    | .ascending => [word .ASC]
    | .descending => [word .DESC]

/-- The datum of an ordering term. -/
def OrderingTerm.datum (t : OrderingTerm) : Datum :=
  match t.direction with
  | .none => t.key.datum
  | .ascending => .tagged .ascending [t.key.datum]
  | .descending => .tagged .descending [t.key.datum]

/-- The limits of a query. -/
inductive Limits where
  | none
  | plain (number : Expr)
  /-- `LIMIT number OFFSET skipped`. -/
  | offset (number skipped : Expr)
  /-- `LIMIT skipped, number`. -/
  | comma (skipped number : Expr)

/-- The pieces of limits. -/
def Limits.pieces : Limits → List Piece
  | .none => []
  | .plain number => word .LIMIT :: number.pieces
  | .offset number skipped => word .LIMIT :: (number.pieces ++ (word .OFFSET :: skipped.pieces))
  | .comma skipped number => word .LIMIT :: (skipped.pieces ++ (symbol .comma :: number.pieces))

/-- The data of limits; the number of rows comes first in either order. -/
def Limits.data : Limits → List Datum
  | .none => []
  | .plain number => [.tagged .limit [number.datum]]
  | .offset number skipped | .comma skipped number =>
    [.tagged .limit [number.datum], .tagged .offset [skipped.datum]]

/-- The levels that limits need. -/
def Limits.depth : Limits → Nat
  | .none => 0
  | .plain number => number.depth + 1
  | .offset number skipped | .comma skipped number => max (number.depth + 1) (skipped.depth + 1)

/-- The order and the limits of a query. -/
structure Ending where
  order : Option (Several OrderingTerm)
  limits : Limits

/-- The pieces of an order. -/
def Piece.order (order : Option (Several OrderingTerm)) : List Piece :=
  order.elim [] fun terms =>
    word .ORDER :: word .BY :: commas (terms.toList.map OrderingTerm.pieces)

/-- The pieces of an order and limits. -/
def Ending.pieces (e : Ending) : List Piece := Piece.order e.order ++ e.limits.pieces

/-- The data of an order. -/
def Datum.order (order : Option (Several OrderingTerm)) : List Datum :=
  order.elim [] fun terms => [.tagged .orderBy (terms.toList.map OrderingTerm.datum)]

/-- The data of an order and limits. -/
def Ending.data (e : Ending) : List Datum := Datum.order e.order ++ e.limits.data

/-- The levels that ordering terms need. -/
def termsDepth (terms : Several OrderingTerm) : Nat :=
  deepest (terms.toList.map fun t => t.key.depth + 1)

/-- The levels that an order and limits need. -/
def Ending.depth (e : Ending) : Nat := max (e.order.elim 0 termsDepth) e.limits.depth

/-! ### Queries -/

/-- The spellings of a join. -/
inductive JoinKind where
  | plain
  | inner
  | cross
  | left
  | leftOuter

/-- The pieces of the words of a join. -/
def JoinKind.pieces : JoinKind → List Piece
  | .plain => [word .JOIN]
  | .inner => [word .INNER, word .JOIN]
  | .cross => [word .CROSS, word .JOIN]
  | .left => [word .LEFT, word .JOIN]
  | .leftOuter => [word .LEFT, word .OUTER, word .JOIN]

/-- The tag of a join. -/
def JoinKind.tag : JoinKind → Tag
  | .plain | .inner | .cross => .innerJoin
  | .left | .leftOuter => .leftJoin

/-- The operators between the cores of a query. -/
inductive SetOperator where
  | union
  | unionAll
  | except
  | intersect

/-- The pieces of a set operator. -/
def SetOperator.pieces : SetOperator → List Piece
  | .union => [word .UNION]
  | .unionAll => [word .UNION, word .ALL]
  | .except => [word .EXCEPT]
  | .intersect => [word .INTERSECT]

/-- The tag of a set operator. -/
def SetOperator.tag : SetOperator → Tag
  | .union => .union
  | .unionAll => .unionAll
  | .except => .except
  | .intersect => .intersect

mutual

/-- A source of rows. -/
inductive Source where
  | table (name : TableName)
  | aliased (source : Source) (label : Alias)
  | join (kind : JoinKind) (left right : Source) (condition : Option Expr)
  | query (query : Query)

/-- A select core, or rows of values. -/
inductive Core where
  | select (mark : RowMark) (columns : Several Column) (sources : List Source)
      (condition : Option Expr) (groups : Option (Several Expr)) (having : Option Expr)
  | values (rows : Several (Several Expr))

/-- Cores joined by set operators, which group to the left. -/
inductive Chain where
  | core (core : Core)
  | link (left : Chain) (operator : SetOperator) (right : Core)

/-- A query, perhaps with named queries before it. -/
inductive Query where
  | plain (chain : Chain) (ending : Ending)
  | named (recursive : Bool) (tables : Tables) (chain : Chain) (ending : Ending)

/-- Named queries, at least one. -/
inductive Tables where
  | last (name : Name) (columns : Option (Several Name)) (query : Query)
  | more (name : Name) (columns : Option (Several Name)) (query : Query) (others : Tables)

end

/-- How much a source holds together: a join is the loosest, then an aliased source. -/
def Source.level : Source → Nat
  | .join .. => 0
  | .aliased .. => 1
  | _ => 2

/-! ### Pieces of queries -/

/-- The pieces of the sources of a core, if there are any. -/
def Piece.sources : List (List Piece) → List Piece
  | [] => []
  | items => word .FROM :: commas items

/-- The pieces of a grouping, if there is one. -/
def Piece.groups (groups : Option (Several Expr)) : List Piece :=
  groups.elim [] fun keys => word .GROUP :: word .BY :: commas (keys.toList.map Expr.pieces)

/-- The pieces of a row of values. -/
def Piece.row (row : Several Expr) : List Piece :=
  symbol .leftParen :: (commas (row.toList.map Expr.pieces) ++ [symbol .rightParen])

/-- The pieces of a named query. -/
def Piece.namedQuery (name : Name) (columns : Option (Several Name)) (query : List Piece) :
    List Piece :=
  name.piece :: (Piece.columnNames columns ++
    (word .AS :: symbol .leftParen :: (query ++ [symbol .rightParen])))

mutual

/-- The pieces of a source. A join stands in parentheses where it is a right operand or has an
alias, and an aliased source where it has an alias of its own. -/
def Source.pieces : Source → List Piece
  | .table name => name.pieces
  | .aliased source label => guarded 2 source.level source.pieces ++ label.pieces
  | .join kind left right condition =>
    left.pieces ++ (kind.pieces ++ (guarded 1 right.level right.pieces ++ Piece.condition .ON condition))
  | .query query => symbol .leftParen :: (query.pieces ++ [symbol .rightParen])

/-- The pieces of each of several sources. -/
def Source.piecesOfAll : List Source → List (List Piece)
  | [] => []
  | source :: sources => source.pieces :: Source.piecesOfAll sources

/-- The pieces of a core. -/
def Core.pieces : Core → List Piece
  | .select mark columns sources condition groups having =>
    word .SELECT :: (mark.pieces ++ (commas (columns.toList.map Column.pieces) ++
      (Piece.sources (Source.piecesOfAll sources) ++ (Piece.condition .WHERE condition ++
        (Piece.groups groups ++ Piece.condition .HAVING having)))))
  | .values rows => word .VALUES :: commas (rows.toList.map Piece.row)

/-- The pieces of a chain. -/
def Chain.pieces : Chain → List Piece
  | .core core => core.pieces
  | .link left operator right => left.pieces ++ (operator.pieces ++ right.pieces)

/-- The pieces of a query. -/
def Query.pieces : Query → List Piece
  | .plain chain ending => chain.pieces ++ ending.pieces
  | .named recursive tables chain ending =>
    word .WITH :: (marked recursive .RECURSIVE ++
      (tables.pieces ++ (chain.pieces ++ ending.pieces)))

/-- The pieces of named queries. -/
def Tables.pieces : Tables → List Piece
  | .last name columns query => Piece.namedQuery name columns query.pieces
  | .more name columns query others =>
    Piece.namedQuery name columns query.pieces ++ (symbol .comma :: others.pieces)

end

/-! ### Data of queries -/

/-- The data of the sources of a core, if there are any. -/
def Datum.sources : List Datum → List Datum
  | [] => []
  | items => [.tagged .fromClause items]

/-- The data of a grouping, if there is one. -/
def Datum.groups (groups : Option (Several Expr)) : List Datum :=
  groups.elim [] fun keys => [.tagged .groupBy (keys.toList.map Expr.datum)]

/-- The datum of a row of values. -/
def Datum.row (row : Several Expr) : Datum := .list (row.toList.map Expr.datum)

/-- The datum of a named query. -/
def Datum.namedQuery (name : Name) (columns : Option (Several Name)) (query : Datum) : Datum :=
  .list (.name name.text :: (Datum.columnNames columns ++ [query]))

mutual

/-- What the tree of a source shows. -/
def Source.datum : Source → Datum
  | .table name => name.datum
  | .aliased source label => .tagged .alias [source.datum, .name label.name.text]
  | .join kind left right condition =>
    .tagged .join ([.tag kind.tag, left.datum, right.datum] ++ Datum.condition .onClause condition)
  | .query query => query.datum

/-- What the trees of several sources show. -/
def Source.dataOfAll : List Source → List Datum
  | [] => []
  | source :: sources => source.datum :: Source.dataOfAll sources

/-- What the parts of a core show. -/
def Core.data : Core → List Datum
  | .select mark columns sources condition groups having =>
    .tag .select :: mark.data ++ [.list (columns.toList.map Column.datum)] ++
      Datum.sources (Source.dataOfAll sources) ++ Datum.condition .whereClause condition ++
      Datum.groups groups ++ Datum.condition .having having
  | .values rows => .tag .values :: rows.toList.map Datum.row

/-- What the parts of a chain show. -/
def Chain.data : Chain → List Datum
  | .core core => core.data
  | .link left operator right => [.tag operator.tag, .list left.data, .list right.data]

/-- What the tree of a query shows. -/
def Query.datum : Query → Datum
  | .plain chain ending => .list (chain.data ++ ending.data)
  | .named recursive tables chain ending =>
    .list (.tag .withClause :: Datum.marked recursive .recursive ++
      [.list tables.data, .list (chain.data ++ ending.data)])

/-- What the trees of named queries show. -/
def Tables.data : Tables → List Datum
  | .last name columns query => [Datum.namedQuery name columns query.datum]
  | .more name columns query others =>
    Datum.namedQuery name columns query.datum :: others.data

end

/-! ### Levels of queries -/

/-- The levels that an expression that may be missing needs. -/
def levelsOf (e : Option Expr) : Nat := e.elim 0 fun e => e.depth + 1

/-- The levels that several expressions need. -/
def levelsOfAll (es : Several Expr) : Nat := deepest (es.toList.map fun e => e.depth + 1)

mutual

/-- The levels that a source needs below its own. -/
def Source.depth : Source → Nat
  | .table _ => 0
  | .aliased source _ => Expr.guardedDepth 2 source.level source.depth
  | .join _ left right condition =>
    max left.depth (max (Expr.guardedDepth 1 right.level right.depth) (levelsOf condition))
  | .query query => query.depth + 2

/-- The levels that several sources need. -/
def Source.depthOfAll : List Source → Nat
  | [] => 0
  | source :: sources => max source.depth (Source.depthOfAll sources)

/-- The levels that a core needs. -/
def Core.depth : Core → Nat
  | .select _ columns sources condition groups having =>
    max (deepest (columns.toList.map Column.depth))
      (max (Source.depthOfAll sources)
        (max (levelsOf condition) (max (groups.elim 0 levelsOfAll) (levelsOf having))))
  | .values rows => deepest (rows.toList.map levelsOfAll)

/-- The levels that a chain needs. -/
def Chain.depth : Chain → Nat
  | .core core => core.depth
  | .link left _ right => max left.depth right.depth

/-- The levels that a query needs below its own. -/
def Query.depth : Query → Nat
  | .plain chain ending => max chain.depth ending.depth
  | .named _ tables chain ending => max tables.depth (max chain.depth ending.depth)

/-- The levels that named queries need. -/
def Tables.depth : Tables → Nat
  | .last _ _ query => query.depth + 1
  | .more _ _ query others => max (query.depth + 1) others.depth

end

/-! ### Statements -/

/-- A column and its new value. -/
structure Assignment where
  column : Name
  value : Expr

/-- The pieces of an assignment. -/
def Assignment.pieces (a : Assignment) : List Piece :=
  a.column.piece :: symbol .equal :: a.value.pieces

/-- The datum of an assignment. -/
def Assignment.datum (a : Assignment) : Datum := .tagged .eq [.name a.column.text, a.value.datum]

/-- A constraint of a column. -/
inductive ColumnConstraint where
  | primaryKey
  | unique
  | null
  | notNull
  | defaultValue (e : Expr)

/-- The pieces of a constraint of a column. -/
def ColumnConstraint.pieces : ColumnConstraint → List Piece
  | .primaryKey => [word .PRIMARY, word .KEY]
  | .unique => [word .UNIQUE]
  | .null => [word .NULL]
  | .notNull => [word .NOT, word .NULL]
  | .defaultValue e => word .DEFAULT :: e.pieces

/-- The datum of a constraint of a column. -/
def ColumnConstraint.datum : ColumnConstraint → Datum
  | .primaryKey => .tag .primaryKey
  | .unique => .tag .unique
  | .null => .tag .null
  | .notNull => .tagged .not [.tag .null]
  | .defaultValue e => .tagged .defaultValue [e.datum]

/-- The levels that a constraint of a column needs. -/
def ColumnConstraint.depth : ColumnConstraint → Nat
  | .defaultValue e => e.depth + 1
  | _ => 0

/-- A column or a constraint of a table. -/
inductive TableElement where
  | column (name : Name) (type : Option TypeName) (constraints : List ColumnConstraint)
  | primaryKey (columns : Several Name)
  | unique (columns : Several Name)

/-- The pieces of an element of a table. -/
def TableElement.pieces : TableElement → List Piece
  | .column name type constraints =>
    name.piece :: (type.elim [] TypeName.pieces ++ constraints.flatMap ColumnConstraint.pieces)
  | .primaryKey columns => word .PRIMARY :: word .KEY :: Piece.names columns
  | .unique columns => word .UNIQUE :: Piece.names columns

/-- The datum of an element of a table. -/
def TableElement.datum : TableElement → Datum
  | .column name type constraints =>
    .list (.name name.text :: ((type.map TypeName.datum).toList ++
      constraints.map ColumnConstraint.datum))
  | .primaryKey columns => .tagged .primaryKey (Datum.names columns)
  | .unique columns => .tagged .unique (Datum.names columns)

/-- The levels that an element of a table needs. -/
def TableElement.depth : TableElement → Nat
  | .column _ _ constraints => deepest (constraints.map ColumnConstraint.depth)
  | .primaryKey _ | .unique _ => 0

/-- The kinds of objects that are defined and dropped. -/
inductive ObjectKind where
  | table
  | index
  | view

/-- The word of a kind of objects. -/
def ObjectKind.word : ObjectKind → Word
  | .table => .TABLE
  | .index => .INDEX
  | .view => .VIEW

/-- The tag for dropping an object of a kind. -/
def ObjectKind.dropTag : ObjectKind → Tag
  | .table => .dropTable
  | .index => .dropIndex
  | .view => .dropView

/-- A statement. -/
inductive Command where
  | query (query : Query)
  | insert (table : TableName) (columns : Option (Several Name)) (rows : Query)
  | update (table : TableName) (label : Option Alias) (assignments : Several Assignment)
      (condition : Option Expr)
  | delete (table : TableName) (label : Option Alias) (condition : Option Expr)
  | createTable (name : TableName) (elements : Several TableElement)
  | createIndex (unique : Bool) (name table : TableName) (terms : Several OrderingTerm)
  | createView (name : TableName) (columns : Option (Several Name)) (query : Query)
  | drop (kind : ObjectKind) (ifExists : Bool) (name : TableName)

namespace Command

/-- The pieces of a statement. -/
def pieces : Command → List Piece
  | .query q => q.pieces
  | .insert table columns rows =>
    word .INSERT :: word .INTO :: (table.pieces ++ (Piece.columnNames columns ++ rows.pieces))
  | .update table label assignments condition =>
    word .UPDATE :: (table.pieces ++ (Piece.aliasOf label ++ (word .SET ::
      (commas (assignments.toList.map Assignment.pieces) ++ Piece.condition .WHERE condition))))
  | .delete table label condition =>
    word .DELETE :: word .FROM ::
      (table.pieces ++ (Piece.aliasOf label ++ Piece.condition .WHERE condition))
  | .createTable name elements =>
    word .CREATE :: word .TABLE :: (name.pieces ++ (symbol .leftParen ::
      (commas (elements.toList.map TableElement.pieces) ++ [symbol .rightParen])))
  | .createIndex unique name table terms =>
    word .CREATE :: (marked unique .UNIQUE ++ (word .INDEX :: (name.pieces ++ (word .ON ::
      (table.pieces ++ (symbol .leftParen ::
        (commas (terms.toList.map OrderingTerm.pieces) ++ [symbol .rightParen])))))))
  | .createView name columns q =>
    word .CREATE :: word .VIEW ::
      (name.pieces ++ (Piece.columnNames columns ++ (word .AS :: q.pieces)))
  | .drop kind ifExists name =>
    word .DROP :: word kind.word ::
      ((if ifExists then [word .IF, word .EXISTS] else []) ++ name.pieces)

/-- What the tree of a statement shows. -/
def datum : Command → Datum
  | .query q => q.datum
  | .insert table columns rows =>
    .list ([.tag .insert, table.datum] ++ Datum.columnNames columns ++ [rows.datum])
  | .update table label assignments condition =>
    .list ([.tag .update, table.datum.aliased label,
      .list (assignments.toList.map Assignment.datum)] ++ Datum.condition .whereClause condition)
  | .delete table label condition =>
    .list ([.tag .delete, table.datum.aliased label] ++ Datum.condition .whereClause condition)
  | .createTable name elements =>
    .tagged .createTable [name.datum, .list (elements.toList.map TableElement.datum)]
  | .createIndex unique name table terms =>
    .list (.tag .createIndex :: Datum.marked unique .unique ++
      [name.datum, table.datum, .list (terms.toList.map OrderingTerm.datum)])
  | .createView name columns q =>
    .list ([.tag .createView, name.datum] ++ Datum.columnNames columns ++ [q.datum])
  | .drop kind ifExists name =>
    .list (.tag kind.dropTag :: Datum.marked ifExists .ifExists ++ [name.datum])

/-- The levels that a statement needs. -/
def depth : Command → Nat
  | .query q => q.depth + 1
  | .insert _ _ rows => rows.depth + 1
  | .update _ _ assignments condition =>
    max (deepest (assignments.toList.map fun a => a.value.depth + 1)) (levelsOf condition)
  | .delete _ _ condition => levelsOf condition
  | .createTable _ elements => deepest (elements.toList.map TableElement.depth)
  | .createIndex _ _ _ terms => termsDepth terms
  | .createView _ _ q => q.depth + 1
  | .drop .. => 0

end Command

/-! ### Depth and length -/

/-- Items of a list need no more levels than the list has pieces, if each needs no more than it
has. -/
theorem deepest_le_length {α : Type} (depth : α → Nat) (print : α → List Piece) (xs : List α)
    (h : ∀ x ∈ xs, depth x ≤ (print x).length) :
    deepest (xs.map depth) ≤ (commas (xs.map print)).length := by
  induction xs with
  | nil => exact Nat.zero_le _
  | cons x xs ih =>
    have hx := h x List.mem_cons_self
    have hxs := ih fun y hy => h y (List.mem_cons_of_mem _ hy)
    have hlength := Expr.length_commas_cons (print x) (xs.map print)
    show max (depth x) (deepest (xs.map depth)) ≤ (commas (print x :: xs.map print)).length
    omega

theorem levelsOf_le_length (w : Word) (e : Option Expr) :
    levelsOf e ≤ (Piece.condition w e).length := by
  cases e with
  | none => exact Nat.zero_le _
  | some e =>
    have he := e.depth_lt_length
    simp only [levelsOf, Piece.condition, Option.elim_some, List.length_cons]
    omega

theorem levelsOfAll_le_length (es : Several Expr) :
    levelsOfAll es ≤ (commas (es.toList.map Expr.pieces)).length :=
  deepest_le_length _ _ es.toList fun e _ => e.depth_lt_length

theorem OrderingTerm.depth_le_length (t : OrderingTerm) : t.key.depth + 1 ≤ t.pieces.length := by
  have hkey := t.key.depth_lt_length
  rw [OrderingTerm.pieces, List.length_append]
  omega

theorem Limits.depth_le_length (l : Limits) : l.depth ≤ l.pieces.length := by
  cases l with
  | none => exact Nat.zero_le _
  | plain number =>
    have hnumber := number.depth_lt_length
    simp only [Limits.depth, Limits.pieces, List.length_cons]
    omega
  | offset number skipped =>
    have hnumber := number.depth_lt_length
    have hskipped := skipped.depth_lt_length
    simp only [Limits.depth, Limits.pieces, List.length_cons, List.length_append]
    omega
  | comma skipped number =>
    have hnumber := number.depth_lt_length
    have hskipped := skipped.depth_lt_length
    simp only [Limits.depth, Limits.pieces, List.length_cons, List.length_append]
    omega

theorem Ending.depth_le_length (e : Ending) : e.depth ≤ e.pieces.length := by
  have hlimits := e.limits.depth_le_length
  rw [Ending.depth, Ending.pieces, List.length_append]
  cases e.order with
  | none =>
    simp only [Option.elim_none, Piece.order]
    omega
  | some terms =>
    have hterms := deepest_le_length _ _ terms.toList fun t _ => t.depth_le_length
    simp only [Option.elim_some, Piece.order, List.length_cons, termsDepth]
    omega

theorem Column.depth_le_length (column : Column) : column.depth ≤ column.pieces.length := by
  cases column with
  | all => exact Nat.zero_le _
  | allOf table => exact Nat.zero_le _
  | value e label =>
    have he := e.depth_lt_length
    rw [Column.depth, Column.pieces, List.length_append]
    omega

mutual

theorem Source.depth_lt_length : (s : Source) → s.depth < s.pieces.length
  | .table name => by
    rw [Source.depth, Source.pieces, TableName.pieces]
    cases name.schema <;> exact Nat.succ_pos _
  | .aliased s label => by
    have hs := Expr.guardedDepth_lt 2 s.level s.depth_lt_length
    rw [Source.depth, Source.pieces, List.length_append]
    omega
  | .join kind left right condition => by
    have hleft := left.depth_lt_length
    have hright := Expr.guardedDepth_lt 1 right.level right.depth_lt_length
    have hcondition := levelsOf_le_length .ON condition
    simp only [Source.depth, Source.pieces, List.length_append]
    omega
  | .query q => by
    have hq := q.depth_lt_length
    simp only [Source.depth, Source.pieces, List.length_cons, List.length_append, List.length_nil]
    omega

theorem Source.depthOfAll_le_length : (sources : List Source) →
    Source.depthOfAll sources ≤ (commas (Source.piecesOfAll sources)).length
  | [] => Nat.zero_le _
  | source :: sources => by
    have hsource := source.depth_lt_length
    have hsources := Source.depthOfAll_le_length sources
    have hlength := Expr.length_commas_cons source.pieces (Source.piecesOfAll sources)
    rw [Source.depthOfAll, Source.piecesOfAll]
    omega

theorem Core.depth_lt_length : (core : Core) → core.depth < core.pieces.length
  | .select mark columns sources condition groups having => by
    have hcolumns := deepest_le_length _ _ columns.toList fun c _ => c.depth_le_length
    have hsources := Source.depthOfAll_le_length sources
    have hfrom : (commas (Source.piecesOfAll sources)).length ≤
        (Piece.sources (Source.piecesOfAll sources)).length := by
      cases sources with
      | nil => exact Nat.le_refl _
      | cons source sources => exact Nat.le_succ _
    have hcondition := levelsOf_le_length .WHERE condition
    have hhaving := levelsOf_le_length .HAVING having
    have hgroups : groups.elim 0 levelsOfAll ≤ (Piece.groups groups).length := by
      cases groups with
      | none => exact Nat.zero_le _
      | some keys =>
        have hkeys := levelsOfAll_le_length keys
        simp only [Option.elim_some, Piece.groups, List.length_cons]
        omega
    simp only [Core.depth, Core.pieces, List.length_cons, List.length_append]
    omega
  | .values rows => by
    have hrows := deepest_le_length levelsOfAll Piece.row rows.toList fun row _ => by
      have hrow := levelsOfAll_le_length row
      simp only [Piece.row, List.length_cons, List.length_append]
      omega
    simp only [Core.depth, Core.pieces, List.length_cons]
    omega

theorem Chain.depth_lt_length : (chain : Chain) → chain.depth < chain.pieces.length
  | .core core => core.depth_lt_length
  | .link left operator right => by
    have hleft := left.depth_lt_length
    have hright := right.depth_lt_length
    simp only [Chain.depth, Chain.pieces, List.length_append]
    omega

theorem Query.depth_lt_length : (q : Query) → q.depth < q.pieces.length
  | .plain chain ending => by
    have hchain := chain.depth_lt_length
    have hending := ending.depth_le_length
    simp only [Query.depth, Query.pieces, List.length_append]
    omega
  | .named recursive tables chain ending => by
    have htables := tables.depth_lt_length
    have hchain := chain.depth_lt_length
    have hending := ending.depth_le_length
    simp only [Query.depth, Query.pieces, List.length_cons, List.length_append]
    omega

theorem Tables.depth_lt_length : (tables : Tables) → tables.depth < tables.pieces.length
  | .last name columns q => by
    have hq := q.depth_lt_length
    simp only [Tables.depth, Tables.pieces, Piece.namedQuery, List.length_cons, List.length_append]
    omega
  | .more name columns q others => by
    have hq := q.depth_lt_length
    have hothers := others.depth_lt_length
    simp only [Tables.depth, Tables.pieces, Piece.namedQuery, List.length_cons, List.length_append]
    omega

end

theorem TableElement.depth_le_length (element : TableElement) :
    element.depth ≤ element.pieces.length := by
  cases element with
  | column name type constraints =>
    have hconstraints : ∀ cs : List ColumnConstraint, deepest (cs.map ColumnConstraint.depth) ≤
        (cs.flatMap ColumnConstraint.pieces).length := by
      intro cs
      induction cs with
      | nil => exact Nat.zero_le _
      | cons constraint cs ih =>
        have hfirst : constraint.depth ≤ constraint.pieces.length := by
          cases constraint with
          | defaultValue e =>
            have he := e.depth_lt_length
            simp only [ColumnConstraint.depth, ColumnConstraint.pieces, List.length_cons]
            omega
          | _ => exact Nat.zero_le _
        show max constraint.depth (deepest (cs.map ColumnConstraint.depth)) ≤ _
        rw [List.flatMap_cons, List.length_append]
        omega
    have hall := hconstraints constraints
    simp only [TableElement.depth, TableElement.pieces, List.length_cons, List.length_append]
    omega
  | _ => exact Nat.zero_le _

/-- A statement needs no more levels than it has pieces. -/
theorem Command.depth_le_length (command : Command) : command.depth ≤ command.pieces.length := by
  cases command with
  | query q => exact q.depth_lt_length
  | insert table columns rows =>
    have hrows := rows.depth_lt_length
    simp only [Command.depth, Command.pieces, List.length_cons, List.length_append]
    omega
  | update table label assignments condition =>
    have hassignments := deepest_le_length (fun a => a.value.depth + 1)
      Assignment.pieces assignments.toList fun a _ => by
        have ha := a.value.depth_lt_length
        simp only [Assignment.pieces, List.length_cons]
        omega
    have hcondition := levelsOf_le_length .WHERE condition
    simp only [Command.depth, Command.pieces, List.length_cons, List.length_append]
    omega
  | delete table label condition =>
    have hcondition := levelsOf_le_length .WHERE condition
    simp only [Command.depth, Command.pieces, List.length_cons, List.length_append]
    omega
  | createTable name elements =>
    have helements := deepest_le_length _ _ elements.toList fun e _ => e.depth_le_length
    simp only [Command.depth, Command.pieces, List.length_cons, List.length_append]
    omega
  | createIndex unique name table terms =>
    have hterms := deepest_le_length _ _ terms.toList fun t _ => t.depth_le_length
    simp only [Command.depth, Command.pieces, termsDepth, List.length_cons, List.length_append]
    omega
  | createView name columns q =>
    have hq := q.depth_lt_length
    simp only [Command.depth, Command.pieces, List.length_cons, List.length_append]
    omega
  | drop kind ifExists name => exact Nat.zero_le _

end TaggedSql
