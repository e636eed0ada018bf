import TaggedSql.Token.Basic

/-!
# Failures

Why a source is no statement: a token is misspelled, a token stands where the grammar wants another,
or expressions and queries enclose each other too often. A failure names its token, and is shown as
a diagnostic.
-/

namespace TaggedSql

/-- A token that the grammar knows by its spelling. -/
inductive Terminal where
  | word (w : Word)
  | symbol (s : Symbol)
  deriving DecidableEq, Repr

namespace Terminal

/-- The kind of the token. -/
def kind : Terminal → Kind
  | .word w => .word w
  | .symbol s => .symbol s

/-- The terminal in messages: a word is spelled out, a symbol stands in quotes. -/
def text : Terminal → String
  | .word w => w.spelling
  | .symbol s => Kind.describe (.symbol s) ""

end Terminal

/-- What the grammar wants at some place. -/
inductive Expectation where
  | statement
  | query
  | definedObject
  | expression
  | identifier
  | typeName
  | integer
  | endOfInput
  | terminal (t : Terminal)
  deriving DecidableEq, Repr

/-- The wording of an expectation. -/
def Expectation.text : Expectation → String
  | .statement => "statement"
  | .query => "SELECT, VALUES or WITH"
  | .definedObject => "TABLE, INDEX or VIEW"
  | .expression => "expression"
  | .identifier => "identifier"
  | .typeName => "type name"
  | .integer => "integer"
  | .endOfInput => Diagnostic.endOfInput
  | .terminal t => t.text

/-- Why a source is no statement, with the token at which this shows. -/
inductive Failure where
  | lexical (problem : Problem) (token : Token)
  | unexpected (expectation : Expectation) (token : Token)
  | tooDeep (limit : Nat) (token : Token)
  deriving DecidableEq, Repr

namespace Failure

/-- The token at which a failure shows. -/
def token : Failure → Token
  | .lexical _ t | .unexpected _ t | .tooDeep _ t => t

/-- The failure as it is shown. -/
def diagnostic : Failure → Diagnostic
  | .lexical p t => .lexical p.message t.span
  | .unexpected e t =>
    if t.isEnd then .unexpectedEnd e.text t.span else .unexpected e.text t.describe t.span
  | .tooDeep limit t =>
    .refusal ("Maximum nesting depth of " ++ toString limit ++ " exceeded") t.span

end Failure

end TaggedSql
