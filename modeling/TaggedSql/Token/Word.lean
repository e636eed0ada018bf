/-!
# Reserved words

The words that a source cannot use as names. A reserved word is recognised in any mix of upper and
lower case, where only the letters `a` to `z` have a case.
-/

namespace TaggedSql

/-- A reserved word, named as it is spelled. -/
inductive Word where
  -- queries
  | SELECT | FROM | WHERE | GROUP | BY | HAVING | ORDER | LIMIT | OFFSET | DISTINCT | ALL | AS
  | WITH | RECURSIVE
  -- joins
  | JOIN | LEFT | INNER | OUTER | CROSS | ON
  -- set operators
  | UNION | INTERSECT | EXCEPT
  -- changing rows
  | VALUES | INSERT | INTO | UPDATE | SET | DELETE
  -- definitions
  | CREATE | DROP | TABLE | INDEX | VIEW | IF | UNIQUE | PRIMARY | KEY | DEFAULT
  -- operators
  | NOT | AND | OR | IN | IS | BETWEEN | LIKE | ESCAPE | GLOB | REGEXP | MATCH | EXISTS
  -- constants
  | NULL | TRUE | FALSE | CURRENT_DATE | CURRENT_TIME | CURRENT_TIMESTAMP
  -- expressions
  | CASE | WHEN | THEN | ELSE | END | CAST
  -- directions
  | ASC | DESC
  deriving DecidableEq, Repr

namespace Word

/-- All reserved words. -/
def all : List Word :=
  [.SELECT, .FROM, .WHERE, .GROUP, .BY, .HAVING, .ORDER, .LIMIT, .OFFSET, .DISTINCT, .ALL, .AS,
   .WITH, .RECURSIVE, .JOIN, .LEFT, .INNER, .OUTER, .CROSS, .ON, .UNION, .INTERSECT, .EXCEPT,
   .VALUES, .INSERT, .INTO, .UPDATE, .SET, .DELETE, .CREATE, .DROP, .TABLE, .INDEX, .VIEW, .IF,
   .UNIQUE, .PRIMARY, .KEY, .DEFAULT, .NOT, .AND, .OR, .IN, .IS, .BETWEEN, .LIKE, .ESCAPE, .GLOB,
   .REGEXP, .MATCH, .EXISTS, .NULL, .TRUE, .FALSE, .CURRENT_DATE, .CURRENT_TIME,
   .CURRENT_TIMESTAMP, .CASE, .WHEN, .THEN, .ELSE, .END, .CAST, .ASC, .DESC]

/-- The spelling of a reserved word in capitals. -/
def spelling : Word → String
  | .SELECT => "SELECT"
  | .FROM => "FROM"
  | .WHERE => "WHERE"
  | .GROUP => "GROUP"
  | .BY => "BY"
  | .HAVING => "HAVING"
  | .ORDER => "ORDER"
  | .LIMIT => "LIMIT"
  | .OFFSET => "OFFSET"
  | .DISTINCT => "DISTINCT"
  | .ALL => "ALL"
  | .AS => "AS"
  | .WITH => "WITH"
  | .RECURSIVE => "RECURSIVE"
  | .JOIN => "JOIN"
  | .LEFT => "LEFT"
  | .INNER => "INNER"
  | .OUTER => "OUTER"
  | .CROSS => "CROSS"
  | .ON => "ON"
  | .UNION => "UNION"
  | .INTERSECT => "INTERSECT"
  | .EXCEPT => "EXCEPT"
  | .VALUES => "VALUES"
  | .INSERT => "INSERT"
  | .INTO => "INTO"
  | .UPDATE => "UPDATE"
  | .SET => "SET"
  | .DELETE => "DELETE"
  | .CREATE => "CREATE"
  | .DROP => "DROP"
  | .TABLE => "TABLE"
  | .INDEX => "INDEX"
  | .VIEW => "VIEW"
  | .IF => "IF"
  | .UNIQUE => "UNIQUE"
  | .PRIMARY => "PRIMARY"
  | .KEY => "KEY"
  | .DEFAULT => "DEFAULT"
  | .NOT => "NOT"
  | .AND => "AND"
  | .OR => "OR"
  | .IN => "IN"
  | .IS => "IS"
  | .BETWEEN => "BETWEEN"
  | .LIKE => "LIKE"
  | .ESCAPE => "ESCAPE"
  | .GLOB => "GLOB"
  | .REGEXP => "REGEXP"
  | .MATCH => "MATCH"
  | .EXISTS => "EXISTS"
  | .NULL => "NULL"
  | .TRUE => "TRUE"
  | .FALSE => "FALSE"
  | .CURRENT_DATE => "CURRENT_DATE"
  | .CURRENT_TIME => "CURRENT_TIME"
  | .CURRENT_TIMESTAMP => "CURRENT_TIMESTAMP"
  | .CASE => "CASE"
  | .WHEN => "WHEN"
  | .THEN => "THEN"
  | .ELSE => "ELSE"
  | .END => "END"
  | .CAST => "CAST"
  | .ASC => "ASC"
  | .DESC => "DESC"

/-- The reserved word that a text spells, its letters `a` to `z` counting as capitals. -/
def ofText? (cs : List Char) : Option Word :=
  all.find? fun w => w.spelling.toList == cs.map Char.toUpper

theorem mem_all (w : Word) : w ∈ all := by cases w <;> decide

/-- A reserved word is recognised by its spelling. -/
theorem ofText?_spelling (w : Word) : ofText? w.spelling.toList = some w := by
  have h : ∀ w ∈ all, ofText? w.spelling.toList = some w := by decide +kernel
  exact h w (mem_all w)

end Word

end TaggedSql
