import TaggedSql.Token.Gap
import TaggedSql.Token.Numeral

/-!
# The lexer

The lexer is a place in a source together with the overflow policy. `next` skips a gap and reads the
token behind it; at the end of the source it gives the end token, again and again. A piece of text
that is no token becomes a token that carries the problem, and reading goes on behind it.

* `next_rest_length_lt`: every token but the end takes at least one character;
* `tokens`: all tokens from a place on, the end token last.
-/

namespace TaggedSql

namespace Lexeme

/-- Reads an operator, a delimiter or an unnamed parameter. -/
def sign (c : Char) (cs : List Char) : Lexeme :=
  match Symbol.spelled? (c :: cs) with
  | some (spelling, s) => plain (.symbol s) spelling ((c :: cs).drop spelling.length)
  | none => if c = '?' then plain (.parameter false) [c] cs else bad (.character c) [c] cs

/-- Reads the lexeme that begins with the character `c`. -/
def read (policy : OverflowPolicy) (c : Char) (cs : List Char) : Lexeme :=
  if c = '\x27' then string cs
  else if c = '\x22' ∨ c = '\x60' then quotedIdentifier c cs
  else if (c = 'X' ∨ c = 'x') ∧ cs.head? = some '\x27' then blob c cs.tail
  else if c.isDigit ∨ c = '.' ∧ cs.head?.any Char.isDigit then numeral policy (c :: cs)
  else if startsWord c then word (c :: cs)
  else if c = ':' ∧ cs.head?.any startsWord then namedParameter cs
  else sign c cs

theorem sign_reads (c : Char) (cs : List Char) : (sign c cs).Reads (c :: cs) := by
  unfold sign
  split
  next spelling s h =>
    obtain ⟨hne, happ⟩ := Symbol.append_drop_of_spelled? h
    exact Reads.plain hne happ
  next =>
    split
    next => exact Reads.plain (by simp) rfl
    next => exact Reads.bad (by simp) rfl

/-- A lexeme takes at least its first character and loses none. -/
theorem read_reads (policy : OverflowPolicy) (c : Char) (cs : List Char) :
    (read policy c cs).Reads (c :: cs) := by
  unfold read
  split
  next h => subst h; exact string_reads cs
  split
  next => exact quotedIdentifier_reads c cs
  split
  next h =>
    cases cs with
    | nil => simp at h
    | cons d ds =>
        have hd : d = '\x27' := by simpa using h.2
        subst hd
        exact blob_reads c ds
  split
  next h =>
    refine numeral_reads policy ⟨c, cs, rfl, h.imp_right fun hpoint => ⟨hpoint.1, ?_⟩⟩
    cases cs with
    | nil => simp at hpoint
    | cons d ds => exact ⟨d, ds, rfl, by simpa using hpoint.2⟩
  split
  next h => exact word_reads h
  split
  next h => obtain ⟨rfl, _⟩ := h; exact namedParameter_reads cs
  exact sign_reads c cs

end Lexeme

/-- A place in a source, with the policy for the integers ahead. -/
structure Lexer where
  policy : OverflowPolicy
  position : Nat
  rest : List Char
  deriving DecidableEq, Repr

namespace Lexer

/-- The lexer at the beginning of a source. -/
def start (policy : OverflowPolicy) (source : String) : Lexer := ⟨policy, 0, source.toList⟩

/-- The token that a block comment without an end becomes, behind the characters skipped. -/
def commentToken (l : Lexer) (skipped comment : List Char) : Token :=
  let start := l.position + Text.width skipped
  ⟨.problem .unclosedComment, ⟨start, start + Text.width comment⟩, String.ofList comment⟩

/-- The token of a lexeme behind the characters skipped. -/
def lexemeToken (l : Lexer) (skipped : List Char) (x : Lexeme) : Token :=
  let start := l.position + Text.width skipped + Text.width x.opening
  ⟨x.kind, ⟨start, start + Text.width x.body⟩, String.ofList x.body⟩

/-- The next token, and the place behind it. -/
def next (l : Lexer) : Token × Lexer :=
  match Gap.read l.rest with
  | .unclosed skipped comment =>
    let t := l.commentToken skipped comment
    (t, ⟨l.policy, t.span.stop, []⟩)
  | .closed skipped [] =>
    let t := Token.endAt (l.position + Text.width skipped)
    (t, ⟨l.policy, t.span.stop, []⟩)
  | .closed skipped (c :: cs) =>
    let x := Lexeme.read l.policy c cs
    let t := l.lexemeToken skipped x
    (t, ⟨l.policy, t.span.stop + Text.width x.closing, x.rest⟩)

theorem next_of_unclosed {l : Lexer} {skipped comment : List Char}
    (h : Gap.read l.rest = .unclosed skipped comment) :
    l.next = (l.commentToken skipped comment,
      ⟨l.policy, (l.commentToken skipped comment).span.stop, []⟩) := by
  rw [next, h]

theorem next_of_end {l : Lexer} {skipped : List Char} (h : Gap.read l.rest = .closed skipped []) :
    l.next = (Token.endAt (l.position + Text.width skipped),
      ⟨l.policy, l.position + Text.width skipped, []⟩) := by
  rw [next, h]
  rfl

theorem next_of_lexeme {l : Lexer} {skipped cs : List Char} {c : Char}
    (h : Gap.read l.rest = .closed skipped (c :: cs)) :
    l.next = (l.lexemeToken skipped (Lexeme.read l.policy c cs),
      ⟨l.policy, (l.lexemeToken skipped (Lexeme.read l.policy c cs)).span.stop +
        Text.width (Lexeme.read l.policy c cs).closing, (Lexeme.read l.policy c cs).rest⟩) := by
  rw [next, h]

/-- Every token but the end takes at least one character. -/
theorem next_rest_length_lt {l : Lexer} (h : l.next.1.isEnd = false) :
    l.next.2.rest.length < l.rest.length := by
  have hall := congrArg List.length (Gap.all_read l.rest)
  cases hread : Gap.read l.rest with
  | unclosed skipped comment =>
      have := List.length_pos_iff.2 (Gap.comment_ne_nil hread)
      rw [hread, Gap.all, List.length_append] at hall
      rw [next_of_unclosed hread]
      simp only [List.length_nil]
      omega
  | closed skipped rest =>
      rw [hread, Gap.all, List.length_append] at hall
      cases rest with
      | nil => rw [next_of_end hread] at h; cases h
      | cons c cs =>
          have := (Lexeme.read_reads l.policy c cs).length_rest_lt
          rw [next_of_lexeme hread]
          simp only
          omega

/-- All tokens from a place on, up to and including the end. -/
def tokens (l : Lexer) : List Token :=
  if h : l.next.1.isEnd = true then [l.next.1]
  else
    have := next_rest_length_lt (by simpa using h)
    l.next.1 :: l.next.2.tokens
  termination_by l.rest.length

end Lexer

/-- All tokens of a source, up to and including the end. -/
def tokenize (policy : OverflowPolicy) (source : String) : List Token :=
  (Lexer.start policy source).tokens

end TaggedSql
