/-!
# Tags

A tag gives a list of a tree its meaning when it stands first in it, or stands alone as a modifier
or a constant. Several words of a source may become one tag, as `GROUP BY` does.
-/

namespace TaggedSql

/-- The meaning of a list, a modifier, or a constant. -/
inductive Tag where
  -- clauses
  | select | fromClause | whereClause | groupBy | having | orderBy | limit | offset | join
  | leftJoin | innerJoin | onClause | union | unionAll | except | intersect | values
  | columnNames | alias | withClause | recursive
  -- comparisons and predicates
  | lt | le | gt | ge | eq | ne | isSame | inList | inQuery | between | like | glob | regexp
  | matches
  -- logical, arithmetic and bitwise operators
  | and | or | not | plus | minus | times | divide | modulo | shiftLeft | shiftRight | concat
  | bitAnd | bitOr | bitNot
  -- control in expressions
  | caseOf | elseBranch | existsQuery | scalarSubquery | cast
  -- functions and aggregates
  | function | aggregateFunction | count | countStar | avg | sum | min | max | total
  | groupConcat
  -- modifiers and constants
  | ascending | descending | distinct | allRows | trueValue | falseValue | null | currentDate
  | currentTime | currentTimestamp | parameter | sizedType
  -- statements
  | insert | delete | update | createIndex | dropIndex | createView | dropView | ifExists
  | createTable | dropTable
  -- constraints
  | primaryKey | unique | defaultValue
  deriving DecidableEq, Repr

namespace Tag

/-- All tags. -/
def all : List Tag :=
  [.select, .fromClause, .whereClause, .groupBy, .having, .orderBy, .limit, .offset, .join,
   .leftJoin, .innerJoin, .onClause, .union, .unionAll, .except, .intersect, .values,
   .columnNames, .alias, .withClause, .recursive, .lt, .le, .gt, .ge, .eq, .ne, .isSame, .inList,
   .inQuery, .between, .like, .glob, .regexp, .matches, .and, .or, .not, .plus, .minus, .times,
   .divide, .modulo, .shiftLeft, .shiftRight, .concat, .bitAnd, .bitOr, .bitNot, .caseOf,
   .elseBranch, .existsQuery, .scalarSubquery, .cast, .function, .aggregateFunction, .count,
   .countStar, .avg, .sum, .min, .max, .total, .groupConcat, .ascending, .descending, .distinct,
   .allRows, .trueValue, .falseValue, .null, .currentDate, .currentTime, .currentTimestamp,
   .parameter, .sizedType, .insert, .delete, .update, .createIndex, .dropIndex, .createView,
   .dropView, .ifExists, .createTable, .dropTable, .primaryKey, .unique, .defaultValue]

/-- The name of a tag in every text that shows it. -/
def name : Tag → String
  | .select => "Select"
  | .fromClause => "From"
  | .whereClause => "Where"
  | .groupBy => "GroupBy"
  | .having => "Having"
  | .orderBy => "OrderBy"
  | .limit => "Limit"
  | .offset => "Offset"
  | .join => "Join"
  | .leftJoin => "Left"
  | .innerJoin => "Inner"
  | .onClause => "On"
  | .union => "Union"
  | .unionAll => "UnionAll"
  | .except => "Except"
  | .intersect => "Intersect"
  | .values => "Values"
  | .columnNames => "ColumnNames"
  | .alias => "As"
  | .withClause => "With"
  | .recursive => "Recursive"
  | .lt => "Lt"
  | .le => "Le"
  | .gt => "Gt"
  | .ge => "Ge"
  | .eq => "Eq"
  | .ne => "Ne"
  | .isSame => "Is"
  | .inList => "In"
  | .inQuery => "InQuery"
  | .between => "Between"
  | .like => "Like"
  | .glob => "Glob"
  | .regexp => "Regexp"
  | .matches => "Match"
  | .and => "And"
  | .or => "Or"
  | .not => "Not"
  | .plus => "Plus"
  | .minus => "Minus"
  | .times => "Mul"
  | .divide => "Div"
  | .modulo => "Mod"
  | .shiftLeft => "Lsh"
  | .shiftRight => "Rsh"
  | .concat => "Concat"
  | .bitAnd => "BitAnd"
  | .bitOr => "BitOr"
  | .bitNot => "BitNot"
  | .caseOf => "Case"
  | .elseBranch => "Else"
  | .existsQuery => "Exists"
  | .scalarSubquery => "ScalarSubquery"
  | .cast => "Cast"
  | .function => "Function"
  | .aggregateFunction => "AggregateFunction"
  | .count => "Count"
  | .countStar => "CountStar"
  | .avg => "Avg"
  | .sum => "Sum"
  | .min => "Min"
  | .max => "Max"
  | .total => "Total"
  | .groupConcat => "GroupConcat"
  | .ascending => "Asc"
  | .descending => "Desc"
  | .distinct => "Distinct"
  | .allRows => "All"
  | .trueValue => "True"
  | .falseValue => "False"
  | .null => "Null"
  | .currentDate => "CurrentDate"
  | .currentTime => "CurrentTime"
  | .currentTimestamp => "CurrentTimestamp"
  | .parameter => "Parameter"
  | .sizedType => "Type"
  | .insert => "Insert"
  | .delete => "Delete"
  | .update => "Update"
  | .createIndex => "CreateIndex"
  | .dropIndex => "DropIndex"
  | .createView => "CreateView"
  | .dropView => "DropView"
  | .ifExists => "IfExists"
  | .createTable => "CreateTable"
  | .dropTable => "DropTable"
  | .primaryKey => "PrimaryKey"
  | .unique => "Unique"
  | .defaultValue => "Default"

/-- The tag with a name. -/
def ofName? (s : String) : Option Tag := all.find? fun t => t.name == s

/-- The names of the aggregate functions, in small letters. -/
def aggregates : List (String × Tag) :=
  [("count", .count), ("avg", .avg), ("sum", .sum), ("min", .min), ("max", .max),
   ("total", .total), ("group_concat", .groupConcat)]

/-- The aggregate function with a name, where only the letters `A` to `Z` have a case. -/
def aggregate? (cs : List Char) : Option Tag :=
  (aggregates.find? fun a => a.1.toList == cs.map Char.toLower).map Prod.snd

/-- Whether a tag heads a whole statement. -/
def isStatement : Tag → Bool
  | .select | .withClause | .values | .union | .unionAll | .except | .intersect | .insert
  | .update | .delete | .createTable | .dropTable | .createIndex | .dropIndex | .createView
  | .dropView => true
  | _ => false

theorem mem_all (t : Tag) : t ∈ all := by cases t <;> decide

/-- A tag is recognised by its name. -/
theorem ofName?_name (t : Tag) : ofName? t.name = some t := by
  have h : ∀ t ∈ all, ofName? t.name = some t := by decide +kernel
  exact h t (mem_all t)

end Tag

end TaggedSql
