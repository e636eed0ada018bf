import TaggedSql.Text.Utf8

/-!
# Spans

A span is a half-open range of byte offsets into a source text. Nothing forces the offsets of a
span to be in order or to lie inside a text; `slice` gives the empty text for one that does not.
-/

namespace TaggedSql

/-- A range of byte offsets: from `start` up to, and without, `stop`. -/
structure Span where
  start : Nat
  stop : Nat
  deriving DecidableEq, Repr, Inhabited

namespace Span

/-- The number of bytes of a span whose offsets are in order. -/
def size? (s : Span) : Option Nat := if s.start ≤ s.stop then some (s.stop - s.start) else none

/-- Whether a span covers no bytes. -/
def isEmpty (s : Span) : Bool := s.start == s.stop

/-- The text that a span covers, if both ends are character boundaries in order. -/
def slice? (s : Span) (source : String) : Option String :=
  (Text.slice? source.toList s.start s.stop).map String.ofList

/-- The text that a span covers, or the empty text where there is none. -/
def slice (s : Span) (source : String) : String := (s.slice? source).getD ""

end Span

end TaggedSql
