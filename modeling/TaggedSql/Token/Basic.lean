import TaggedSql.Binary64.Layout
import TaggedSql.Diagnostic
import TaggedSql.Token.Problem
import TaggedSql.Token.Symbol
import TaggedSql.Token.Word

/-!
# Tokens

A token is a kind with the span and the text it was read from. The span of a quoted token leaves
out its quotes, and that of a named parameter its colon. Numbers carry their value; all other
content is the text.
-/

namespace TaggedSql

/-- What a token is. -/
inductive Kind where
  | integer (value : Int64)
  /-- The decimal integer `2 ^ 63`, which a signed 64-bit integer holds only when negated. -/
  | leastMagnitude
  | float (value : Binary64)
  | string
  | blob
  | identifier (quoted : Bool)
  | word (w : Word)
  | parameter (named : Bool)
  | symbol (s : Symbol)
  | endOfInput
  | problem (p : Problem)
  deriving DecidableEq, Repr

namespace Kind

/-- The description of a kind in messages, for a token with the given text. -/
def describe (k : Kind) (text : String) : String :=
  match k with
  | .integer n => "integer " ++ toString n.toInt
  | .leastMagnitude => "integer " ++ text
  | .float x => "float " ++ Binary64.Layout.message.write x
  | .string => "string '" ++ text ++ "'"
  | .blob => "blob X'" ++ text ++ "'"
  | .identifier _ => "identifier `" ++ text ++ "`"
  | .word w => "keyword " ++ w.spelling
  | .parameter true => "parameter :" ++ text
  | .parameter false => "parameter ?"
  | .symbol s => "`" ++ s.spelling ++ "`"
  | .endOfInput => Diagnostic.endOfInput
  | .problem p => p.message

/-- The spelling of a symbol; the empty text for every other kind. -/
def symbolText : Kind → String
  | .symbol s => s.spelling
  | _ => ""

/-- The reserved word that a kind is. -/
def word? : Kind → Option Word
  | .word w => some w
  | _ => none

/-- Whether a kind is an identifier, quoted or not. -/
def isIdentifier : Kind → Bool
  | .identifier _ => true
  | _ => false

end Kind

/-- A kind with the span and the text it was read from. -/
structure Token where
  kind : Kind
  span : Span
  text : String
  deriving DecidableEq, Repr

namespace Token

/-- The token behind the last character of a source. -/
def endAt (offset : Nat) : Token := ⟨.endOfInput, ⟨offset, offset⟩, ""⟩

/-- Whether a token is the end of its source. -/
def isEnd (t : Token) : Bool := t.kind == .endOfInput

/-- The description of a token in messages. -/
def describe (t : Token) : String := t.kind.describe t.text

end Token

end TaggedSql
