import TaggedSql.Grammar.Rule

/-!
# Queries

A query is a chain of select cores and rows of values, joined by set operators that group to the
left, and closed by an order and limits for the whole chain. `WITH` puts named queries before it.

The parts of a core are not put into a list until it is known what follows: an order and limits
become parts of the outermost list.
-/

namespace TaggedSql.Query

open Rule

/-! ### Names and aliases -/

/-- The name of a table, perhaps behind that of its schema. -/
def tableName : Rule NodeId := do
  let first ← identifier
  if ← eat (.symbol .dot) then
    let name ← identifier
    pushList [first, name]
  else return first

/-- An alias, with or without `AS` before it. -/
def alias? : Rule (Option NodeId) := do
  if ← eat (.word .AS) then return some (← identifier)
  else if (← current).kind.isIdentifier then return some (← identifier)
  else return none

/-- Gives a node the alias that follows, if one does. -/
def withAlias (node : NodeId) : Rule NodeId := do
  match ← alias? with
  | some name => tagged .alias [node, name]
  | none => return node

/-- Column names in parentheses. -/
def columnNames : Rule NodeId := do
  expect (.symbol .leftParen)
  let head ← pushTag .columnNames
  let names ← identifiers
  expect (.symbol .rightParen)
  pushList (head :: names)

/-- Column names in parentheses, if they follow. -/
def optionalColumnNames : Rule (List NodeId) := do
  if ← at? (.symbol .leftParen) then return [← columnNames] else return []

/-! ### Sources -/

/-- The tag of the join that follows; a cross join is an inner join. -/
def joinOperator? : Rule (Option Tag) := do
  match ← currentWord? with
  | some .JOIN =>
    expect (.word .JOIN)
    return some .innerJoin
  | some .INNER | some .CROSS =>
    advance
    expect (.word .JOIN)
    return some .innerJoin
  | some .LEFT =>
    advance
    let _ ← eat (.word .OUTER)
    expect (.word .JOIN)
    return some .leftJoin
  | _ => return none

/-- A table, or a query or join in parentheses, perhaps with an alias. -/
def tableReference (c : Context) : Rule NodeId := do
  let table ← if ← eat (.symbol .leftParen) then
      let inner ← c.enter .tableSource
      expect (.symbol .rightParen)
      pure inner
    else tableName
  withAlias table

/-- The condition of a join, if one follows. -/
def joinCondition (c : Context) : Rule (List NodeId) := do
  if ← eat (.word .ON) then
    let condition ← c.expression
    return [← tagged .onClause [condition]]
  else return []

/-- Extends a source by one join, if one follows. -/
def extendJoin (c : Context) (left : NodeId) : Rule (Option NodeId) := do
  match ← joinOperator? with
  | none => return none
  | some kind =>
    let right ← tableReference c
    let head ← pushTag .join
    let mark ← pushTag kind
    let condition ← joinCondition c
    return some (← pushList ([head, mark, left, right] ++ condition))

/-- A table reference and the joins that follow, which group to the left. -/
def joinSource (c : Context) : Rule NodeId := do
  let first ← tableReference c
  iterate (extendJoin c) first

/-- What may stand in parentheses among the sources of a query: a query or a join. -/
def tableSource (c : Context) : Rule NodeId := do
  if ← atQuery then c.query else joinSource c

/-! ### Select cores -/

/-- The condition of a statement, if one follows. -/
def whereClause (c : Context) : Rule (List NodeId) := do
  if ← eat (.word .WHERE) then
    let condition ← c.expression
    return [← tagged .whereClause [condition]]
  else return []

/-- A result column: all columns, all columns of a table, or an expression with or without an
alias. -/
def resultColumn (c : Context) : Rule NodeId := do
  if ← eat (.symbol .star) then pushTag .times
  else if (← current).kind.isIdentifier && (← peek 1).kind == .symbol .dot
      && (← peek 2).kind == .symbol .star then
    let table ← identifier
    advance
    advance
    let head ← pushTag .times
    pushList [head, table]
  else
    let column ← c.expression
    withAlias column

/-- The mark that keeps or drops repeated rows. -/
def rowMark : Rule (List NodeId) := do
  if ← eat (.word .DISTINCT) then return [← pushTag .distinct]
  else if ← eat (.word .ALL) then return [← pushTag .allRows]
  else return []

/-- The sources of a select core, if they follow. -/
def fromClause (c : Context) : Rule (List NodeId) := do
  if ← eat (.word .FROM) then
    let head ← pushTag .fromClause
    let sources ← commaSeparated (joinSource c)
    return [← pushList (head :: sources)]
  else return []

/-- The grouping of a select core, if it follows. -/
def groupByClause (c : Context) : Rule (List NodeId) := do
  if ← eat (.word .GROUP) then
    expect (.word .BY)
    let head ← pushTag .groupBy
    let keys ← c.expressions
    return [← pushList (head :: keys)]
  else return []

/-- The condition on groups, if it follows. -/
def havingClause (c : Context) : Rule (List NodeId) := do
  if ← eat (.word .HAVING) then
    let condition ← c.expression
    return [← tagged .having [condition]]
  else return []

/-- A row of values in parentheses. -/
def valueRow (c : Context) : Rule NodeId := do
  expect (.symbol .leftParen)
  let row ← c.expressions
  expect (.symbol .rightParen)
  pushList row

/-- The parts of rows of values. -/
def valuesParts (c : Context) : Rule (List NodeId) := do
  expect (.word .VALUES)
  let head ← pushTag .values
  let rows ← commaSeparated (valueRow c)
  return head :: rows

/-- The parts of a select core. -/
def selectParts (c : Context) : Rule (List NodeId) := do
  expect (.word .SELECT)
  let head ← pushTag .select
  let mark ← rowMark
  let columns ← pushList (← commaSeparated (resultColumn c))
  let sources ← fromClause c
  let condition ← whereClause c
  let groups ← groupByClause c
  let having ← havingClause c
  return head :: mark ++ [columns] ++ sources ++ condition ++ groups ++ having

/-- The parts of a select core or of rows of values. -/
def coreParts (c : Context) : Rule (List NodeId) := do
  if ← at? (.word .VALUES) then valuesParts c else selectParts c

/-! ### Chains of cores -/

/-- The set operator that follows. -/
def setOperator? : Rule (Option Tag) := do
  match ← currentWord? with
  | some .UNION =>
    advance
    if ← eat (.word .ALL) then return some .unionAll else return some .union
  | some .EXCEPT =>
    advance
    return some .except
  | some .INTERSECT =>
    advance
    return some .intersect
  | _ => return none

/-- Extends the parts of a chain by one set operator and a core, if one follows. -/
def extendChain (c : Context) (parts : List NodeId) : Rule (Option (List NodeId)) := do
  match ← setOperator? with
  | none => return none
  | some operator =>
    let left ← pushList parts
    let right ← pushList (← coreParts c)
    let head ← pushTag operator
    return some [head, left, right]

/-- An expression to order by, perhaps with its direction. -/
def orderingTerm (c : Context) : Rule NodeId := do
  let key ← c.expression
  match ← currentWord? with
  | some .ASC =>
    advance
    tagged .ascending [key]
  | some .DESC =>
    advance
    tagged .descending [key]
  | _ => return key

/-- The order of a chain, if one follows. -/
def orderByClause (c : Context) : Rule (List NodeId) := do
  if ← eat (.word .ORDER) then
    expect (.word .BY)
    let head ← pushTag .orderBy
    let terms ← commaSeparated (orderingTerm c)
    return [← pushList (head :: terms)]
  else return []

/-- The limits of a chain, if they follow. In `LIMIT a, b` the offset comes first. -/
def limitClause (c : Context) : Rule (List NodeId) := do
  if ← eat (.word .LIMIT) then
    let first ← c.expression
    if ← eat (.symbol .comma) then
      let count ← c.expression
      let limit ← tagged .limit [count]
      return [limit, ← tagged .offset [first]]
    else if ← eat (.word .OFFSET) then
      let skipped ← c.expression
      let limit ← tagged .limit [first]
      return [limit, ← tagged .offset [skipped]]
    else return [← tagged .limit [first]]
  else return []

/-- A chain of cores with its order and limits. -/
def chain (c : Context) : Rule NodeId := do
  let first ← coreParts c
  let parts ← iterate (extendChain c) first
  let order ← orderByClause c
  let limits ← limitClause c
  pushList (parts ++ order ++ limits)

/-! ### Named queries -/

/-- A named query, perhaps with names for its columns. -/
def namedQuery (c : Context) : Rule NodeId := do
  let name ← identifier
  let columns ← optionalColumnNames
  expect (.word .AS)
  let query ← c.parenthesizedQuery
  pushList (name :: columns ++ [query])

/-- The word `WITH`, named queries, and the query that uses them. -/
def withQuery (c : Context) : Rule NodeId := do
  expect (.word .WITH)
  let head ← pushTag .withClause
  let mark ← if ← eat (.word .RECURSIVE) then pure [← pushTag .recursive] else pure []
  let tables ← pushList (← commaSeparated (namedQuery c))
  let query ← chain c
  pushList (head :: mark ++ [tables, query])

/-- A query, with or without named queries before it. -/
def query (c : Context) : Rule NodeId := do
  if ← at? (.word .WITH) then withQuery c else chain c

end TaggedSql.Query
