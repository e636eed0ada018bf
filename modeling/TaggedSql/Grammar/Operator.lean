import TaggedSql.Token.Basic
import TaggedSql.Tree.Tag

/-!
# Operators and their binding powers

A greater power binds tighter. The left operand of a binary operator holds operators of at least its
power, and the right operand only tighter ones, so operators of one power group to the left. Powers
of binary operators are odd; the operand of a prefix operator may hold everything from the power
given with it.
-/

namespace TaggedSql

/-- What follows the left operand of a binary operator. -/
inductive BinaryOperator where
  /-- The operator and a right operand. -/
  | plain (tag : Tag)
  /-- The word `IS`, perhaps negated, and a right operand. -/
  | isSame
  /-- The word `IN` and a list or a query in parentheses. -/
  | inList
  /-- The word `BETWEEN` and two bounds. -/
  | between
  /-- The word `LIKE`, a pattern, and perhaps an escape. -/
  | like
  deriving DecidableEq, Repr

namespace Kind

/-- The binary operator that a token is, and its power. -/
def binary? : Kind → Option (BinaryOperator × Nat)
  | .word .OR => some (.plain .or, 1)
  | .word .AND => some (.plain .and, 3)
  | .symbol .equal => some (.plain .eq, 7)
  | .symbol .unequal => some (.plain .ne, 7)
  | .symbol .less => some (.plain .lt, 7)
  | .symbol .lessOrEqual => some (.plain .le, 7)
  | .symbol .greater => some (.plain .gt, 7)
  | .symbol .greaterOrEqual => some (.plain .ge, 7)
  | .word .IS => some (.isSame, 7)
  | .word .IN => some (.inList, 7)
  | .word .LIKE => some (.like, 7)
  | .word .BETWEEN => some (.between, 7)
  | .word .GLOB => some (.plain .glob, 7)
  | .word .REGEXP => some (.plain .regexp, 7)
  | .word .MATCH => some (.plain .matches, 7)
  | .symbol .bitAnd => some (.plain .bitAnd, 9)
  | .symbol .bitOr => some (.plain .bitOr, 9)
  | .symbol .shiftLeft => some (.plain .shiftLeft, 9)
  | .symbol .shiftRight => some (.plain .shiftRight, 9)
  | .symbol .plus => some (.plain .plus, 11)
  | .symbol .minus => some (.plain .minus, 11)
  | .symbol .star => some (.plain .times, 13)
  | .symbol .slash => some (.plain .divide, 13)
  | .symbol .percent => some (.plain .modulo, 13)
  | .symbol .concat => some (.plain .concat, 15)
  | _ => none

/-- The tag of the prefix operator that a token is, and the power of its operand. -/
def unary? : Kind → Option (Tag × Nat)
  | .word .NOT => some (.not, 5)
  | .symbol .minus => some (.minus, 17)
  | .symbol .plus => some (.plus, 17)
  | .symbol .bitNot => some (.bitNot, 17)
  | _ => none

/-- Whether a token is a predicate that `NOT` may stand before. -/
def isNegatable : Kind → Bool
  | .word .IN | .word .LIKE | .word .BETWEEN | .word .GLOB | .word .REGEXP | .word .MATCH => true
  | _ => false

/-- The tag of the constant that a token is. -/
def constant? : Kind → Option Tag
  | .word .NULL => some .null
  | .word .TRUE => some .trueValue
  | .word .FALSE => some .falseValue
  | .word .CURRENT_DATE => some .currentDate
  | .word .CURRENT_TIME => some .currentTime
  | .word .CURRENT_TIMESTAMP => some .currentTimestamp
  | _ => none

end Kind

end TaggedSql
