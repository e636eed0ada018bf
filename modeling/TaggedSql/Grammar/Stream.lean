import TaggedSql.Token.Lexer

/-!
# Token streams

A stream holds the tokens of a source from some place on. Behind them the end token stands as often
as it is asked for, so that looking ahead needs no bounds.
-/

namespace TaggedSql

/-- The tokens ahead, without the end token, and the offset of the end. -/
structure Stream where
  ahead : List Token
  stop : Nat
  deriving DecidableEq, Repr

namespace Stream

/-- The stream of a list of tokens; it ends with the first end token. -/
def ofTokens (ts : List Token) : Stream where
  ahead := ts.takeWhile fun t => !t.isEnd
  stop := ((ts.find? Token.isEnd).map fun t => t.span.stop).getD 0

/-- The stream of a source. -/
def ofSource (policy : OverflowPolicy) (source : String) : Stream :=
  ofTokens (tokenize policy source)

/-- The token `n` places ahead. -/
def peek (s : Stream) (n : Nat) : Token := s.ahead[n]?.getD (Token.endAt s.stop)

/-- The token at the front. -/
def current (s : Stream) : Token := s.peek 0

/-- The stream without the token at the front. -/
def advance (s : Stream) : Stream := { s with ahead := s.ahead.tail }

/-- The number of tokens ahead. -/
def size (s : Stream) : Nat := s.ahead.length

end Stream

end TaggedSql
