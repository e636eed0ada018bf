/-!
# Settings of a parse

Two things about a parse can be set: how deep expressions and queries may nest, and what becomes of
a decimal integer that a signed 64-bit integer cannot hold.
-/

namespace TaggedSql

/-- What becomes of a decimal integer beyond the signed 64-bit range. -/
inductive OverflowPolicy where
  /-- It is read as a double-precision number. -/
  | promote
  /-- It is a lexical error. -/
  | reject
  deriving DecidableEq, Repr, Inhabited

namespace OverflowPolicy

/-- The name of a policy in documents. -/
def name : OverflowPolicy → String
  | .promote => "promote_to_float"
  | .reject => "error"

/-- The policy with a name. -/
def ofName? (s : String) : Option OverflowPolicy := [promote, reject].find? (·.name == s)

end OverflowPolicy

/-- The settings of a parse. -/
structure Settings where
  /-- How many expressions, queries and parenthesised table sources may enclose each other. -/
  maxDepth : Nat := 128
  /-- What becomes of a decimal integer beyond the signed 64-bit range. -/
  overflow : OverflowPolicy := .promote
  deriving DecidableEq, Repr, Inhabited

end TaggedSql
