import TaggedSql.Grammar.Operator
import TaggedSql.Grammar.Rule

/-!
# Expressions

An expression is an operand followed by binary operators and their right operands. An operand is a
prefix operator with its own operand, or a primary: a literal, a name, a call, a parameter, a
constant, `CASE`, `CAST`, `EXISTS`, or something in parentheses.
-/

namespace TaggedSql.Expression

open Rule

/-! ### Types -/

/-- A size of a type. -/
def typeSize : Rule NodeId := do
  match (← current).kind with
  | .integer n => pushAtom (.integer n)
  | _ => unexpected .integer

/-- The name of a type, perhaps with one or two sizes. The words of a name become one node, whose
span runs from the first word to the last. -/
def typeName : Rule NodeId := do
  unless ← atPlainIdentifier do unexpected .typeName
  let first ← current
  advance
  let stop ← iterate (fun _ => do
    let t ← current
    if ← atPlainIdentifier then
      advance
      return some t.span.stop
    else return none) first.span.stop
  let name ← push (.name ⟨first.span.start, stop⟩)
  if ← eat (.symbol .leftParen) then
    let head ← pushTag .sizedType
    let size ← typeSize
    let scale ← if ← eat (.symbol .comma) then pure [← typeSize] else pure []
    expect (.symbol .rightParen)
    pushList ([head, name, size] ++ scale)
  else return name

/-! ### Names and calls -/

/-- A name, or names divided by dots. -/
def qualifiedName : Rule NodeId := do
  let parts ← separatedBy (.symbol .dot) identifier
  match parts with
  | [name] => return name
  | _ => pushList parts

/-- The condition of an aggregate, `FILTER (WHERE …)`; the first word is not reserved. -/
def aggregateFilter (c : Context) : Rule (List NodeId) := do
  let t ← current
  let opens := t.kind == .identifier false
    && t.text.toList.map Char.toLower == ['f', 'i', 'l', 't', 'e', 'r']
    && (← peek 1).kind == .symbol .leftParen
  if opens then
    advance
    advance
    expect (.word .WHERE)
    let condition ← c.expression
    expect (.symbol .rightParen)
    return [← tagged .whereClause [condition]]
  else return []

/-- The arguments of a call up to the closing parenthesis. -/
def arguments (c : Context) : Rule (List NodeId) := do
  let items ← if ← at? (.symbol .rightParen) then pure [] else c.expressions
  expect (.symbol .rightParen)
  return items

/-- Whether `DISTINCT` stands before the arguments of a call; `ALL` has no effect there. -/
def distinctMark : Rule Bool := do
  if ← eat (.word .DISTINCT) then return true
  else
    let _ ← eat (.word .ALL)
    return false

/-- The aggregate that a call means: the least and the greatest of several values are plain
functions. -/
def calledAggregate? (aggregate : Option Tag) (arguments : List NodeId) : Option Tag :=
  aggregate.filter fun t => !((t == .min || t == .max) && 1 < arguments.length)

/-- A call. The name of an aggregate means the aggregate unless it is quoted. -/
def call (c : Context) (quoted : Bool) : Rule NodeId := do
  let name ← current
  let aggregate := if quoted then none else Tag.aggregate? name.text.toList
  advance
  expect (.symbol .leftParen)
  let countsRows ← if aggregate == some .count then eat (.symbol .star) else pure false
  if countsRows then
    expect (.symbol .rightParen)
    let head ← pushTag .aggregateFunction
    let function ← pushTag .countStar
    let noItems ← pushList []
    pushList ([head, function, noItems] ++ (← aggregateFilter c))
  else
    let distinct ← distinctMark
    let items ← arguments c
    match calledAggregate? aggregate items with
    | some t =>
      let head ← pushTag .aggregateFunction
      let function ← pushTag t
      let mark ← if distinct then pure [← pushTag .distinct] else pure []
      let list ← pushList items
      pushList ([head, function] ++ mark ++ [list] ++ (← aggregateFilter c))
    | none =>
      let head ← pushTag .function
      let function ← push (.name name.span)
      let mark ← if distinct then pure [← pushTag .distinct] else pure []
      let list ← pushList items
      pushList ([head, function] ++ mark ++ [list])

/-! ### Primaries -/

/-- The word `CASE`, perhaps an operand, branches, and perhaps `ELSE`. -/
def caseExpression (c : Context) : Rule NodeId := do
  expect (.word .CASE)
  let head ← pushTag .caseOf
  let operand ← if ← at? (.word .WHEN) then pure [] else pure [← c.expression]
  unless ← at? (.word .WHEN) do unexpected (.terminal (.word .WHEN))
  let branches ← iterate (fun parts => do
    if ← eat (.word .WHEN) then
      let condition ← c.expression
      expect (.word .THEN)
      let result ← c.expression
      return some (parts ++ [condition, result])
    else return none) []
  let otherwise ← if ← eat (.word .ELSE) then
      let result ← c.expression
      pure [← tagged .elseBranch [result]]
    else pure []
  expect (.word .END)
  pushList (head :: operand ++ branches ++ otherwise)

/-- A conversion, `CAST (expression AS type)`. -/
def cast (c : Context) : Rule NodeId := do
  expect (.word .CAST)
  expect (.symbol .leftParen)
  let operand ← c.expression
  expect (.word .AS)
  let type ← typeName
  expect (.symbol .rightParen)
  tagged .cast [operand, type]

/-- The word `EXISTS` and a query. -/
def existsQuery (c : Context) : Rule NodeId := do
  advance
  let query ← c.parenthesizedQuery
  tagged .existsQuery [query]

/-- A query or an expression in parentheses; those of an expression leave no trace. -/
def parenthesized (c : Context) : Rule NodeId := do
  advance
  let inner ← if ← atQuery then
      let query ← c.query
      tagged .scalarSubquery [query]
    else c.expression
  expect (.symbol .rightParen)
  return inner

/-- A parameter, with its name if it has one. -/
def parameter (named : Bool) (span : Span) : Rule NodeId := do
  advance
  if named then
    let name ← push (.name span)
    tagged .parameter [name]
  else tagged .parameter []

/-- The integer `2 ^ 63` without a sign, which is promoted or refused. -/
def leastMagnitude (policy : OverflowPolicy) (t : Token) : Rule NodeId :=
  match policy with
  | .promote => pushAtom (.float Binary64.twoPow63)
  | .reject => throw (.lexical (.integerRange t.text.toList) t)

/-- An operand without a prefix operator. -/
def primary (c : Context) : Rule NodeId := do
  let t ← current
  match t.kind with
  | .integer n => pushAtom (.integer n)
  | .leastMagnitude => leastMagnitude c.policy t
  | .float x => pushAtom (.float x)
  | .string => pushAtom (.string t.span)
  | .blob => pushAtom (.blob t.span)
  | .identifier quoted =>
    if (← peek 1).kind == .symbol .leftParen then call c quoted else qualifiedName
  | .parameter named => parameter named t.span
  | .symbol .leftParen => parenthesized c
  | .word .CASE => caseExpression c
  | .word .CAST => cast c
  | .word .EXISTS => existsQuery c
  | kind =>
    match kind.constant? with
    | some tag => pushAtom (.tag tag)
    | none => unexpected .expression

/-! ### Operators -/

/-- An operand. A minus sign before `2 ^ 63` belongs to the integer. -/
def operand (c : Context) : Rule NodeId := do
  let t ← current
  if t.kind == .symbol .minus && (← peek 1).kind == .leastMagnitude then
    advance
    pushAtom (.integer Int64.minValue)
  else
    match t.kind.unary? with
    | some (tag, power) =>
      advance
      let inner ← c.enter (.expression power)
      tagged tag [inner]
    | none => primary c

/-- The words `IS [NOT]` and what the left operand is compared with. -/
def isSame (c : Context) (left : NodeId) (power : Nat) : Rule NodeId := do
  expect (.word .IS)
  let negated ← eat (.word .NOT)
  let right ← c.enter (.expression power)
  let comparison ← tagged .isSame [left, right]
  if negated then tagged .not [comparison] else return comparison

/-- The word `IN` and a query or a list, which may be empty. -/
def inList (c : Context) (left : NodeId) : Rule NodeId := do
  expect (.word .IN)
  expect (.symbol .leftParen)
  if ← atQuery then
    let query ← c.query
    expect (.symbol .rightParen)
    tagged .inQuery [left, query]
  else
    let items ← arguments c
    let list ← pushList items
    tagged .inList [left, list]

/-- The bounds of `BETWEEN low AND high`, which hold only operators that bind tighter. -/
def between (c : Context) (left : NodeId) (power : Nat) : Rule NodeId := do
  expect (.word .BETWEEN)
  let low ← c.enter (.expression power)
  expect (.word .AND)
  let high ← c.enter (.expression power)
  tagged .between [left, low, high]

/-- The pattern of `LIKE pattern [ESCAPE character]`. -/
def like (c : Context) (left : NodeId) (power : Nat) : Rule NodeId := do
  expect (.word .LIKE)
  let pattern ← c.enter (.expression power)
  if ← eat (.word .ESCAPE) then
    let escape ← c.enter (.expression power)
    tagged .like [left, pattern, escape]
  else tagged .like [left, pattern]

/-- A binary operator and what follows it; right operands hold operators from the power on. -/
def application (c : Context) (left : NodeId) (power : Nat) : BinaryOperator → Rule NodeId
  | .isSame => isSame c left power
  | .inList => inList c left
  | .between => between c left power
  | .like => like c left power
  | .plain tag => do
    advance
    let right ← c.enter (.expression power)
    tagged tag [left, right]

/-- Extends an expression by one operator that binds at least as tightly as the power says. `NOT`
before a predicate negates the whole predicate. -/
def extend (c : Context) (power : Nat) (left : NodeId) : Rule (Option NodeId) := do
  let t ← current
  let next ← peek 1
  let negated := t.kind == .word .NOT && next.kind.isNegatable
  match (if negated then next.kind else t.kind).binary? with
  | none => return none
  | some (operator, own) =>
    if own < power then return none
    else
      if negated then advance
      let predicate ← application c left (own + 1) operator
      if negated then return some (← tagged .not [predicate]) else return some predicate

/-- An expression whose operators bind at least as tightly as the power says. -/
def expression (c : Context) (power : Nat) : Rule NodeId := do
  let first ← operand c
  iterate (extend c power) first

end TaggedSql.Expression
