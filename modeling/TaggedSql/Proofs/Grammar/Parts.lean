import Mathlib
import TaggedSql.Grammar.Statement

/-!
# The parts of rules

Rules with optional parts, cut into one rule for each part, so that a part is reasoned about once and
not again in every combination with the others. Each equation says that a rule is the sequence of its
parts.
-/

namespace TaggedSql

namespace Rule

variable {α β : Type}

/-- Fails unless something is the case. -/
def require (b : Bool) (e : Expectation) : Rule Unit := if b then pure () else unexpected e

/-- A rule whose nodes are added only if a terminal stands before them. -/
def behind (t : Terminal) (r : Rule (List NodeId)) : Rule (List NodeId) := do
  if ← eat t then r else return []

theorem ite_bind (b : Bool) (x y : Rule α) (f : α → Rule β) :
    (if b then x else y) >>= f = if b then x >>= f else y >>= f := by
  cases b <;> rfl

end Rule

namespace Expression

open Rule

/-! ### Types -/

/-- The words of a type behind the first one; the value is where the last one ends. -/
def typeWords (stop : Nat) : Rule Nat :=
  iterate (fun _ => do
    let t ← current
    if ← atPlainIdentifier then
      advance
      return some t.span.stop
    else return none) stop

/-- The span of all words of a type. -/
def typeSpan : Rule Span := do
  require (← atPlainIdentifier) .typeName
  let first ← current
  advance
  let stop ← typeWords first.span.stop
  return ⟨first.span.start, stop⟩

/-- The scale of a type, if one follows its size. -/
def typeScale : Rule (List NodeId) := behind (.symbol .comma) do return [← typeSize]

/-- The sizes of a type with the given name, if they follow. -/
def typeSizes (name : NodeId) : Rule NodeId := do
  if ← eat (.symbol .leftParen) then
    let head ← pushTag .sizedType
    let size ← typeSize
    let scale ← typeScale
    expect (.symbol .rightParen)
    pushList ([head, name, size] ++ scale)
  else return name

theorem typeName_eq : typeName = (do
    let name ← push (.name (← typeSpan))
    typeSizes name) := by
  simp only [typeName, typeSpan, require, typeWords, typeSizes, typeScale, behind, bind_assoc,
    ite_bind, pure_bind]

/-! ### Calls -/

/-- The arguments of a call, of which there may be none. -/
def argumentItems (c : Context) : Rule (List NodeId) := do
  if ← at? (.symbol .rightParen) then return [] else c.expressions

theorem arguments_eq (c : Context) : arguments c = (do
    let items ← argumentItems c
    expect (.symbol .rightParen)
    return items) := by
  simp only [arguments, argumentItems, bind_assoc, ite_bind, pure_bind]

/-- The mark `DISTINCT` as a node. -/
def distinctNode (distinct : Bool) : Rule (List NodeId) := do
  if distinct then return [← pushTag .distinct] else return []

/-- The node of a call behind its arguments: an aggregate with its condition, or a plain function. -/
def callNode (c : Context) (name : Token) (distinct : Bool) (items : List NodeId) :
    Option Tag → Rule NodeId
  | some t => do
    let head ← pushTag .aggregateFunction
    let function ← pushTag t
    let mark ← distinctNode distinct
    let list ← pushList items
    let filter ← aggregateFilter c
    pushList ([head, function] ++ mark ++ [list] ++ filter)
  | none => do
    let head ← pushTag .function
    let function ← push (.name name.span)
    let mark ← distinctNode distinct
    let list ← pushList items
    pushList ([head, function] ++ mark ++ [list])

/-- The node of a call that counts rows. -/
def countNode (c : Context) : Rule NodeId := do
  expect (.symbol .rightParen)
  let head ← pushTag .aggregateFunction
  let function ← pushTag .countStar
  let noItems ← pushList []
  let filter ← aggregateFilter c
  pushList ([head, function, noItems] ++ filter)

/-- The star of `count(*)`, if it follows. -/
def countStar (aggregate : Option Tag) : Rule Bool :=
  if aggregate == some .count then eat (.symbol .star) else pure false

/-- The aggregate that a name means, if it is not quoted. -/
def namedAggregate? (quoted : Bool) (name : Token) : Option Tag :=
  if quoted then none else Tag.aggregate? name.text.toList

theorem call_eq (c : Context) (quoted : Bool) : call c quoted = (do
    let name ← current
    advance
    expect (.symbol .leftParen)
    let countsRows ← countStar (namedAggregate? quoted name)
    if countsRows then countNode c
    else
      let distinct ← distinctMark
      let items ← arguments c
      callNode c name distinct items (calledAggregate? (namedAggregate? quoted name) items)) := by
  unfold call countNode countStar callNode distinctNode namedAggregate?
  simp only [ite_bind, bind_assoc, pure_bind]
  all_goals rfl

/-! ### Primaries -/

/-- The operand of `CASE`, if there is one. -/
def caseOperand (c : Context) : Rule (List NodeId) := do
  if ← at? (.word .WHEN) then return [] else return [← c.expression]

/-- One more branch of `CASE`, if one follows. -/
def caseBranch (c : Context) (parts : List NodeId) : Rule (Option (List NodeId)) := do
  if ← eat (.word .WHEN) then
    let condition ← c.expression
    expect (.word .THEN)
    let result ← c.expression
    return some (parts ++ [condition, result])
  else return none

/-- What holds in no branch of `CASE`, if it follows. -/
def caseElse (c : Context) : Rule (List NodeId) := behind (.word .ELSE) do
  let result ← c.expression
  return [← tagged .elseBranch [result]]

theorem caseExpression_eq (c : Context) : caseExpression c = (do
    expect (.word .CASE)
    let head ← pushTag .caseOf
    let operand ← caseOperand c
    require (← at? (.word .WHEN)) (.terminal (.word .WHEN))
    let branches ← iterate (caseBranch c) []
    let otherwise ← caseElse c
    expect (.word .END)
    pushList (head :: operand ++ branches ++ otherwise)) := by
  simp only [caseExpression, caseOperand, caseElse, behind, require, bind_assoc, ite_bind,
    pure_bind]
  rfl

/-- What stands in parentheses: a query or an expression. -/
def enclosed (c : Context) : Rule NodeId := do
  if ← atQuery then
    let query ← c.query
    tagged .scalarSubquery [query]
  else c.expression

theorem parenthesized_eq (c : Context) : parenthesized c = (do
    advance
    let inner ← enclosed c
    expect (.symbol .rightParen)
    return inner) := by
  simp only [parenthesized, enclosed, bind_assoc, ite_bind]

/-! ### Operators -/

/-- The word `NOT` before a predicate that is negated. -/
def passNot (negated : Bool) : Rule Unit := if negated then advance else pure ()

/-- The negation of a node, or the node itself. -/
def negatedNode (negated : Bool) (node : NodeId) : Rule NodeId :=
  if negated then tagged .not [node] else pure node

theorem extend_eq (c : Context) (power : Nat) (left : NodeId) : extend c power left = (do
    let t ← current
    let next ← peek 1
    let negated := t.kind == .word .NOT && next.kind.isNegatable
    match (if negated then next.kind else t.kind).binary? with
    | none => return none
    | some (operator, own) =>
      if own < power then return none
      else
        passNot negated
        let predicate ← application c left (own + 1) operator
        return some (← negatedNode negated predicate)) := by
  simp only [extend, passNot, negatedNode, ite_bind, pure_bind]
  all_goals rfl

theorem isSame_eq (c : Context) (left : NodeId) (power : Nat) : isSame c left power = (do
    expect (.word .IS)
    let negated ← eat (.word .NOT)
    let right ← c.enter (.expression power)
    let comparison ← tagged .isSame [left, right]
    negatedNode negated comparison) := by
  simp only [isSame, negatedNode]

end Expression

namespace Query

open Rule

/-! ### Sources and clauses -/

/-- A tag as a node, if a word stands there for it. -/
def mark (w : Word) (t : Tag) : Rule (List NodeId) := behind (.word w) do return [← pushTag t]

/-- A condition behind a word, as a clause, if it follows. -/
def condition (w : Word) (t : Tag) (c : Context) : Rule (List NodeId) := behind (.word w) do
  let condition ← c.expression
  return [← tagged t [condition]]

theorem joinCondition_eq : joinCondition = condition .ON .onClause := rfl

theorem whereClause_eq : whereClause = condition .WHERE .whereClause := rfl

theorem havingClause_eq : havingClause = condition .HAVING .having := rfl

theorem fromClause_eq (c : Context) : fromClause c = behind (.word .FROM) (do
    let head ← pushTag .fromClause
    let sources ← commaSeparated (joinSource c)
    return [← pushList (head :: sources)]) := rfl

theorem groupByClause_eq (c : Context) : groupByClause c = behind (.word .GROUP) (do
    expect (.word .BY)
    let head ← pushTag .groupBy
    let keys ← c.expressions
    return [← pushList (head :: keys)]) := rfl

theorem orderByClause_eq (c : Context) : orderByClause c = behind (.word .ORDER) (do
    expect (.word .BY)
    let head ← pushTag .orderBy
    let terms ← commaSeparated (orderingTerm c)
    return [← pushList (head :: terms)]) := rfl

/-- Behind the word `LIMIT` and an expression: what follows is a comma and the limit, or `OFFSET` and
the offset, or neither. -/
def limitRest (c : Context) (first : NodeId) : Rule (List NodeId) := do
  if ← eat (.symbol .comma) then
    let count ← c.expression
    let limit ← tagged .limit [count]
    return [limit, ← tagged .offset [first]]
  else if ← eat (.word .OFFSET) then
    let skipped ← c.expression
    let limit ← tagged .limit [first]
    return [limit, ← tagged .offset [skipped]]
  else return [← tagged .limit [first]]

theorem limitClause_eq (c : Context) : limitClause c = behind (.word .LIMIT) (do
    let first ← c.expression
    limitRest c first) := rfl

/-- A table, or a query or join in parentheses. -/
def tablePrimary (c : Context) : Rule NodeId := do
  if ← eat (.symbol .leftParen) then
    let inner ← c.enter .tableSource
    expect (.symbol .rightParen)
    return inner
  else tableName

theorem tableReference_eq (c : Context) : tableReference c = tablePrimary c >>= withAlias := by
  simp only [tableReference, tablePrimary, bind_assoc, ite_bind, pure_bind]

/-- Cores joined by set operators, as the parts of one list. -/
def chainParts (c : Context) : Rule (List NodeId) := do
  let first ← coreParts c
  iterate (extendChain c) first

theorem chain_eq (c : Context) : chain c = (do
    let parts ← chainParts c
    let order ← orderByClause c
    let limits ← limitClause c
    pushList (parts ++ order ++ limits)) := by
  simp only [chain, chainParts, bind_assoc]

theorem withQuery_eq (c : Context) : withQuery c = (do
    expect (.word .WITH)
    let head ← pushTag .withClause
    let mark ← mark .RECURSIVE .recursive
    let tables ← pushList (← commaSeparated (namedQuery c))
    let query ← chain c
    pushList (head :: mark ++ [tables, query])) := by
  simp only [withQuery, mark, behind, bind_assoc, ite_bind, pure_bind]

end Query

namespace Statement

open Rule Query

/-! ### Definitions -/

/-- The type of a column, if it has one. -/
def columnType : Rule (List NodeId) := do
  if ← atPlainIdentifier then return [← Expression.typeName] else return []

/-- One more constraint of a column, if one follows. -/
def extendColumn (c : Context) (parts : List NodeId) : Rule (Option (List NodeId)) := do
  match ← columnConstraint? c with
  | some constraint => return some (parts ++ [constraint])
  | none => return none

theorem columnDefinition_eq (c : Context) : columnDefinition c = (do
    let name ← identifier
    let type ← columnType
    let parts ← iterate (extendColumn c) (name :: type)
    pushList parts) := by
  simp only [columnDefinition, columnType, bind_assoc, ite_bind, pure_bind]
  rfl

/-- The kind of a constraint of a table. -/
def constraintTag : Rule Tag := do
  if ← eat (.word .PRIMARY) then
    expect (.word .KEY)
    return .primaryKey
  else
    expect (.word .UNIQUE)
    return .unique

theorem tableConstraint_eq : tableConstraint = (do
    let tag ← constraintTag
    let head ← pushTag tag
    expect (.symbol .leftParen)
    let columns ← identifiers
    expect (.symbol .rightParen)
    pushList (head :: columns)) := by
  simp only [tableConstraint, constraintTag, bind_assoc, ite_bind, pure_bind]

theorem createIndex_eq (c : Context) : createIndex c = (do
    let head ← pushTag .createIndex
    let mark ← mark .UNIQUE .unique
    expect (.word .INDEX)
    let name ← tableName
    expect (.word .ON)
    let table ← tableName
    expect (.symbol .leftParen)
    let terms ← commaSeparated (orderingTerm c)
    expect (.symbol .rightParen)
    let list ← pushList terms
    pushList (head :: mark ++ [name, table, list])) := by
  simp only [createIndex, mark, behind, bind_assoc, ite_bind, pure_bind]

/-- What is defined behind the word `CREATE`, by the word that follows. -/
def definition (c : Context) : Option Word → Rule NodeId
  | some .TABLE => createTable c
  | some .UNIQUE | some .INDEX => createIndex c
  | some .VIEW => createView c
  | _ => unexpected .definedObject

theorem create_eq (c : Context) : create c = (do
    expect (.word .CREATE)
    definition c (← currentWord?)) := rfl

/-- The words `IF EXISTS` as a node, if they follow. -/
def existsMark : Rule (List NodeId) := behind (.word .IF) do
  expect (.word .EXISTS)
  return [← pushTag .ifExists]

theorem drop_eq : drop = (do
    expect (.word .DROP)
    match (← currentWord?).bind dropTag? with
    | none => unexpected .definedObject
    | some tag =>
      advance
      let head ← pushTag tag
      let mark ← existsMark
      let name ← tableName
      pushList (head :: mark ++ [name])) := by
  simp only [drop, existsMark, behind, bind_assoc, ite_bind, pure_bind]
  all_goals rfl

end Statement

end TaggedSql
