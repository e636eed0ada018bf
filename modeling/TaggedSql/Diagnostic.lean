import TaggedSql.Span
import TaggedSql.Text.Position

/-!
# Diagnostics

A diagnostic says at which stage a source was refused, why, and where. `display` is the one-line
form; `annotate` shows the offending line of the source with carets below the offending part:

```text
syntax error: Unexpected end of input: expected expression
 --> 1:11
  |
1 | SELECT 1 +
  |           ^
```

The carets are moved into place by padding, which has a greatest width. A diagnostic that begins further
to the right has no annotated form.
-/

namespace TaggedSql

/-- The stage that refuses a source: reading its tokens, or reading statements from the tokens. -/
inductive Stage where
  | lexical
  | grammar
  deriving DecidableEq, Repr

/-- The name of a stage in messages. -/
def Stage.label : Stage → String
  | .lexical => "lexical"
  | .grammar => "syntax"

/-- Why and where a source is refused. -/
structure Diagnostic where
  stage : Stage
  message : String
  span : Span
  expected : Option String
  found : Option String
  deriving DecidableEq, Repr

/-- A diagnostic cannot be annotated: it begins in a column that padding does not reach. -/
structure BeyondPadding where
  column : Nat
  deriving DecidableEq, Repr

namespace Diagnostic

/-- How the end of the source is described. -/
def endOfInput : String := "end of input"

/-- A refusal by the grammar that names no tokens. -/
def refusal (message : String) (span : Span) : Diagnostic :=
  ⟨.grammar, message, span, none, none⟩

/-- A refusal while reading tokens. -/
def lexical (message : String) (span : Span) : Diagnostic :=
  ⟨.lexical, message, span, none, none⟩

/-- A token stands where the grammar wants another. -/
def unexpected (expected found : String) (span : Span) : Diagnostic :=
  ⟨.grammar, "Unexpected token: expected " ++ expected ++ ", found " ++ found, span,
    some expected, some found⟩

/-- The source ends where the grammar wants a token. -/
def unexpectedEnd (expected : String) (span : Span) : Diagnostic :=
  ⟨.grammar, "Unexpected end of input: expected " ++ expected, span,
    some expected, some endOfInput⟩

/-- The diagnostic in one line. -/
def display (d : Diagnostic) : String :=
  d.message ++ " at position " ++ toString d.span.start ++ ".." ++ toString d.span.stop

/-- The position at which the diagnostic begins in its source. -/
def position (d : Diagnostic) (source : String) : Text.Position :=
  Text.Position.ofOffset source.toList d.span.start

/-- A run of one character. -/
def repeated (n : Nat) (c : Char) : String := String.ofList (List.replicate n c)

/-- The number of carets below a line: one for each character of the span, but at least one and
none beyond the end of the line. -/
def caretCount (d : Diagnostic) (source : String) : Nat :=
  let here := d.position source
  let lineLength := (Text.lineText source.toList here.line).length
  let spanLength := ((Text.slice? source.toList d.span.start d.span.stop).map List.length).getD 1
  min (max 1 spanLength) (max 1 (lineLength - (here.column - 1)))

/-- The five lines of the annotated form. -/
def annotationLines (d : Diagnostic) (source : String) : List String :=
  let here := d.position source
  let number := toString here.line
  let gutter := repeated number.length ' '
  [ d.stage.label ++ " error: " ++ d.message,
    gutter ++ "--> " ++ number ++ ":" ++ toString here.column,
    gutter ++ " |",
    number ++ " | " ++ String.ofList (Text.lineText source.toList here.line),
    gutter ++ " | " ++ repeated (here.column - 1) ' ' ++ repeated (d.caretCount source) '^' ]

/-- The greatest number of columns that padding can fill. -/
def widestPadding : Nat := 65535

/-- The diagnostic with the offending line of the source. -/
def annotate (d : Diagnostic) (source : String) : Except BeyondPadding String :=
  let column := (d.position source).column
  if column - 1 ≤ widestPadding then .ok (String.intercalate "\n" (d.annotationLines source))
  else .error ⟨column⟩

end Diagnostic

end TaggedSql
