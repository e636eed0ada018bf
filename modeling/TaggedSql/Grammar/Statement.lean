import TaggedSql.Grammar.Expression
import TaggedSql.Grammar.Query
import TaggedSql.Settings.Basic
import TaggedSql.Tree.Basic

/-!
# Statements

A statement is a query, or it changes rows, or it defines or drops a table, an index or a view.
`enter` ties the rules together: it leads one level deeper for as long as there is room, so the
whole grammar is a recursion on the levels that are left.
-/

namespace TaggedSql.Statement

open Rule Query

/-! ### Changing rows -/

/-- New rows, `INSERT INTO table [(columns)] query`. -/
def insert (c : Context) : Rule NodeId := do
  expect (.word .INSERT)
  expect (.word .INTO)
  let head ← pushTag .insert
  let table ← tableName
  let columns ← optionalColumnNames
  let rows ← c.requiredQuery
  pushList ([head, table] ++ columns ++ [rows])

/-- A column and its new value. -/
def assignment (c : Context) : Rule NodeId := do
  let column ← identifier
  expect (.symbol .equal)
  let value ← c.expression
  tagged .eq [column, value]

/-- Changed rows, `UPDATE table SET assignments [WHERE condition]`. -/
def update (c : Context) : Rule NodeId := do
  expect (.word .UPDATE)
  let head ← pushTag .update
  let table ← withAlias (← tableName)
  expect (.word .SET)
  let assignments ← pushList (← commaSeparated (assignment c))
  let condition ← whereClause c
  pushList ([head, table, assignments] ++ condition)

/-- Removed rows, `DELETE FROM table [WHERE condition]`. -/
def delete (c : Context) : Rule NodeId := do
  expect (.word .DELETE)
  expect (.word .FROM)
  let head ← pushTag .delete
  let table ← withAlias (← tableName)
  let condition ← whereClause c
  pushList ([head, table] ++ condition)

/-! ### Defining tables -/

/-- The constraint of a column that follows, if one does. -/
def columnConstraint? (c : Context) : Rule (Option NodeId) := do
  match ← currentWord? with
  | some .PRIMARY =>
    advance
    expect (.word .KEY)
    return some (← pushTag .primaryKey)
  | some .UNIQUE =>
    advance
    return some (← pushTag .unique)
  | some .NULL =>
    advance
    return some (← pushTag .null)
  | some .NOT =>
    advance
    expect (.word .NULL)
    let null ← pushTag .null
    return some (← tagged .not [null])
  | some .DEFAULT =>
    advance
    let value ← c.expression
    return some (← tagged .defaultValue [value])
  | _ => return none

/-- A column: its name, perhaps its type, and its constraints. -/
def columnDefinition (c : Context) : Rule NodeId := do
  let name ← identifier
  let type ← if ← atPlainIdentifier then pure [← Expression.typeName] else pure []
  let parts ← iterate (fun parts => do
    match ← columnConstraint? c with
    | some constraint => return some (parts ++ [constraint])
    | none => return none) (name :: type)
  pushList parts

/-- A constraint of a table on some of its columns. -/
def tableConstraint : Rule NodeId := do
  let tag ← if ← eat (.word .PRIMARY) then
      expect (.word .KEY)
      pure Tag.primaryKey
    else
      expect (.word .UNIQUE)
      pure Tag.unique
  let head ← pushTag tag
  expect (.symbol .leftParen)
  let columns ← identifiers
  expect (.symbol .rightParen)
  pushList (head :: columns)

/-- A column or a constraint of a table. -/
def tableElement (c : Context) : Rule NodeId := do
  match ← currentWord? with
  | some .PRIMARY | some .UNIQUE => tableConstraint
  | _ => columnDefinition c

/-- A table, `TABLE name (elements)`, behind `CREATE`. -/
def createTable (c : Context) : Rule NodeId := do
  expect (.word .TABLE)
  let head ← pushTag .createTable
  let name ← tableName
  expect (.symbol .leftParen)
  let elements ← commaSeparated (tableElement c)
  expect (.symbol .rightParen)
  let list ← pushList elements
  pushList [head, name, list]

/-! ### Defining indexes and views -/

/-- An index, `[UNIQUE] INDEX name ON table (terms)`, behind `CREATE`. -/
def createIndex (c : Context) : Rule NodeId := do
  let head ← pushTag .createIndex
  let mark ← if ← eat (.word .UNIQUE) then pure [← pushTag .unique] else pure []
  expect (.word .INDEX)
  let name ← tableName
  expect (.word .ON)
  let table ← tableName
  expect (.symbol .leftParen)
  let terms ← commaSeparated (orderingTerm c)
  expect (.symbol .rightParen)
  let list ← pushList terms
  pushList (head :: mark ++ [name, table, list])

/-- A view, `VIEW name [(columns)] AS query`, behind `CREATE`. -/
def createView (c : Context) : Rule NodeId := do
  expect (.word .VIEW)
  let head ← pushTag .createView
  let name ← tableName
  let columns ← optionalColumnNames
  expect (.word .AS)
  let query ← c.requiredQuery
  pushList ([head, name] ++ columns ++ [query])

/-- The word `CREATE` and what it defines. -/
def create (c : Context) : Rule NodeId := do
  expect (.word .CREATE)
  match ← currentWord? with
  | some .TABLE => createTable c
  | some .UNIQUE | some .INDEX => createIndex c
  | some .VIEW => createView c
  | _ => unexpected .definedObject

/-! ### Dropping -/

/-- The tag for dropping the kind of object that a word names. -/
def dropTag? : Word → Option Tag
  | .TABLE => some .dropTable
  | .INDEX => some .dropIndex
  | .VIEW => some .dropView
  | _ => none

/-- The word `DROP`, the kind of object, perhaps `IF EXISTS`, and its name. -/
def drop : Rule NodeId := do
  expect (.word .DROP)
  match (← currentWord?).bind dropTag? with
  | none => unexpected .definedObject
  | some tag =>
    advance
    let head ← pushTag tag
    let mark ← if ← eat (.word .IF) then
        expect (.word .EXISTS)
        pure [← pushTag .ifExists]
      else pure []
    let name ← tableName
    pushList (head :: mark ++ [name])

/-! ### The whole grammar -/

/-- The rule behind an entry, with the rules one level deeper. -/
def body (c : Context) : Entry → Rule NodeId
  | .expression power => Expression.expression c power
  | .query => Query.query c
  | .tableSource => Query.tableSource c

/-- Enters a rule with room for a number of levels; without room it fails. -/
def enter (settings : Settings) : Nat → Entry → Rule NodeId
  | 0, _ => do throw (.tooDeep settings.maxDepth (← current))
  | room + 1, entry => body ⟨settings.overflow, enter settings room⟩ entry

/-- The surroundings of a statement: nothing is nested yet. -/
def context (settings : Settings) : Context :=
  ⟨settings.overflow, enter settings settings.maxDepth⟩

/-- A statement. -/
def statement (c : Context) : Rule NodeId := do
  match ← currentWord? with
  | some .SELECT | some .VALUES | some .WITH => c.query
  | some .INSERT => insert c
  | some .UPDATE => update c
  | some .DELETE => delete c
  | some .CREATE => create c
  | some .DROP => drop
  | _ => unexpected .statement

/-- Reads a statement and takes the arena as its tree, so that an empty arena is left. -/
def tree (settings : Settings) (source : String) : Rule Tree := do
  let root ← statement (context settings)
  let s ← get
  set { s with arena := {} }
  return ⟨source, s.arena, root⟩

/-- Reads one statement, perhaps with a semicolon behind it, up to the end of the source. -/
def single (settings : Settings) (source : String) : Rule Tree := do
  checkSpelling
  let result ← tree settings source
  let _ ← eat (.symbol .semicolon)
  unless ← atEnd do unexpected .endOfInput
  return result

/-- Skips semicolons. -/
def skipSemicolons : Rule Unit :=
  iterate (fun _ => do if ← eat (.symbol .semicolon) then return some () else return none) ()

/-- Reads one more statement of a script, if one follows, with the semicolon that divides it from
the next. -/
def extendScript (settings : Settings) (source : String) (trees : List Tree) :
    Rule (Option (List Tree)) := do
  skipSemicolons
  if ← atEnd then return none
  else
    let next ← tree settings source
    unless ← atEnd do expect (.symbol .semicolon)
    return some (trees ++ [next])

/-- Reads one or more statements divided by semicolons, up to the end of the source. Semicolons
without a statement between them are skipped. -/
def script (settings : Settings) (source : String) : Rule (List Tree) := do
  checkSpelling
  let trees ← iterate (extendScript settings source) []
  if trees.isEmpty then unexpected .statement else return trees

end TaggedSql.Statement
