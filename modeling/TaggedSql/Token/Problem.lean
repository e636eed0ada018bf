/-!
# Lexical problems

Why a piece of source text is no token. Reading goes on behind it.
-/

namespace TaggedSql

/-- Why a piece of source text is no token. -/
inductive Problem where
  | unclosedComment
  | unclosedString
  | unclosedIdentifier
  | emptyIdentifier
  | unclosedBlob
  | blobCharacter
  | oddBlob
  | exponent
  | number
  | hexNumber
  | hexTooLarge (digits : List Char)
  | integerRange (text : List Char)
  | floatRange (text : List Char)
  | character (c : Char)
  deriving DecidableEq, Repr

/-- The wording of a problem. -/
def Problem.message : Problem → String
  | .unclosedComment => "Unterminated block comment"
  | .unclosedString => "Unterminated string literal"
  | .unclosedIdentifier => "Unterminated quoted identifier"
  | .emptyIdentifier => "Empty quoted identifier"
  | .unclosedBlob => "Unterminated blob literal"
  | .blobCharacter => "Invalid character in blob literal"
  | .oddBlob => "Odd number of hex digits in blob literal"
  | .exponent => "Malformed exponent in numeric literal"
  | .number => "Invalid numeric literal"
  | .hexNumber => "Invalid hexadecimal literal"
  | .hexTooLarge digits => "Hexadecimal literal too large: 0x" ++ String.ofList digits
  | .integerRange text => "Integer literal out of range: " ++ String.ofList text
  | .floatRange text => "Numeric literal out of range: " ++ String.ofList text
  | .character c => "Unexpected character: " ++ String.singleton c

end TaggedSql
