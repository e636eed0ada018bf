import TaggedSql.Text.Digits
import TaggedSql.Text.Numeric
import TaggedSql.Text.Quoted
import TaggedSql.Token.Basic

/-!
# Lexemes

A lexeme is what is read at the place where a token begins: the kind of the token, and the
characters taken, divided into those before the token's span (an opening quote, the mark of a blob,
the colon of a parameter), those of the span, and those behind it (a closing quote). `Reads` says
that the characters taken and the rest make up the text read, and that something was taken; it is
why reading a source ends.
-/

namespace TaggedSql

/-- The kind of a token and the division of the characters it was read from. -/
structure Lexeme where
  kind : Kind
  opening : List Char
  body : List Char
  closing : List Char
  rest : List Char
  deriving DecidableEq, Repr

namespace Lexeme

/-- A lexeme whose span holds all characters taken. -/
def plain (kind : Kind) (body rest : List Char) : Lexeme := ⟨kind, [], body, [], rest⟩

/-- The lexeme of a text that is no token. -/
def bad (problem : Problem) (body rest : List Char) : Lexeme := plain (.problem problem) body rest

/-- The characters that a lexeme takes. -/
def taken (l : Lexeme) : List Char := l.opening ++ l.body ++ l.closing

/-- The lexeme takes something, and what it takes and leaves is the given text. -/
structure Reads (l : Lexeme) (cs : List Char) : Prop where
  taken_ne_nil : l.taken ≠ []
  taken_append_rest : l.taken ++ l.rest = cs

theorem Reads.plain {kind : Kind} {body rest cs : List Char} (hbody : body ≠ [])
    (h : body ++ rest = cs) : (plain kind body rest).Reads cs :=
  ⟨by simpa [taken, Lexeme.plain] using hbody, by simpa [taken, Lexeme.plain] using h⟩

theorem Reads.bad {problem : Problem} {body rest cs : List Char} (hbody : body ≠ [])
    (h : body ++ rest = cs) : (bad problem body rest).Reads cs :=
  Reads.plain hbody h

/-- A lexeme leaves less than it was read from. -/
theorem Reads.length_rest_lt {l : Lexeme} {cs : List Char} (h : l.Reads cs) :
    l.rest.length < cs.length := by
  rw [← h.taken_append_rest, List.length_append]
  have := List.length_pos_iff.2 h.taken_ne_nil
  omega

/-! ### Words -/

/-- Whether a name can begin with the character. -/
def startsWord (c : Char) : Bool := Text.isAlphabetic c || c == '_'

/-- Whether a name can continue with the character. -/
def continuesWord (c : Char) : Bool := Text.isAlphanumeric c || c == '_' || c == '$'

/-- Reads a name, which is a reserved word if it spells one. -/
def word (cs : List Char) : Lexeme :=
  let name := cs.takeWhile continuesWord
  let kind := match Word.ofText? name with
    | some w => .word w
    | none => .identifier false
  plain kind name (cs.dropWhile continuesWord)

/-- Reads a parameter behind its colon. -/
def namedParameter (cs : List Char) : Lexeme :=
  ⟨.parameter true, [':'], cs.takeWhile continuesWord, [], cs.dropWhile continuesWord⟩

/-! ### Quoted tokens -/

/-- Reads a string behind its opening quote. -/
def string (cs : List Char) : Lexeme :=
  match Text.split? '\x27' cs with
  | some (body, rest) => ⟨.string, ['\x27'], body, ['\x27'], rest⟩
  | none => bad .unclosedString ('\x27' :: cs) []

/-- Reads a quoted identifier behind its opening quote. -/
def quotedIdentifier (quote : Char) (cs : List Char) : Lexeme :=
  match Text.split? quote cs with
  | some ([], rest) => bad .emptyIdentifier [quote, quote] rest
  | some (body, rest) => ⟨.identifier true, [quote], body, [quote], rest⟩
  | none => bad .unclosedIdentifier (quote :: cs) []

/-- The characters up to and including the first quote, and those behind it. -/
def throughQuote : List Char → List Char × List Char
  | [] => ([], [])
  | c :: cs => if c = '\x27' then ([c], cs) else (c :: (throughQuote cs).1, (throughQuote cs).2)

/-- Reads a blob behind its mark and opening quote. A character that is no hexadecimal digit
spoils the whole blob, up to the quote that would have closed it. -/
def blob (mark : Char) (cs : List Char) : Lexeme :=
  let digits := cs.takeWhile Text.isHexDigit
  let opening := [mark, '\x27']
  match cs.dropWhile Text.isHexDigit with
  | [] => bad .unclosedBlob (opening ++ cs) []
  | c :: rest =>
    if c = '\x27' then
      if digits.length % 2 = 0 then ⟨.blob, opening, digits, ['\x27'], rest⟩
      else bad .oddBlob (opening ++ digits ++ ['\x27']) rest
    else
      let spoiled := throughQuote (c :: rest)
      bad .blobCharacter (opening ++ digits ++ spoiled.1) spoiled.2

/-! ### What is taken and what is left -/

theorem continuesWord_of_startsWord {c : Char} (h : startsWord c = true) :
    continuesWord c = true := by
  simp only [startsWord, continuesWord, Text.isAlphanumeric, Bool.or_eq_true] at *
  rcases h with h | h <;> simp [h]

theorem word_reads {c : Char} {cs : List Char} (h : startsWord c = true) :
    (word (c :: cs)).Reads (c :: cs) := by
  refine Reads.plain ?_ List.takeWhile_append_dropWhile
  rw [List.takeWhile_cons_of_pos (continuesWord_of_startsWord h)]
  exact List.cons_ne_nil _ _

theorem namedParameter_reads (cs : List Char) : (namedParameter cs).Reads (':' :: cs) :=
  ⟨by simp [taken, namedParameter], by simp [taken, namedParameter]⟩

theorem string_reads (cs : List Char) : (string cs).Reads ('\x27' :: cs) := by
  unfold string
  split
  next body rest h =>
    exact ⟨by simp [taken], by simp [taken, Text.append_of_split? h]⟩
  next => exact Reads.bad (by simp) (by simp)

theorem quotedIdentifier_reads (quote : Char) (cs : List Char) :
    (quotedIdentifier quote cs).Reads (quote :: cs) := by
  unfold quotedIdentifier
  split
  next rest h => exact Reads.bad (by simp) (by simp [Text.append_of_split? h])
  next body rest _ h =>
    exact ⟨by simp [taken], by simp [taken, Text.append_of_split? h]⟩
  next => exact Reads.bad (by simp) (by simp)

theorem throughQuote_append (cs : List Char) : (throughQuote cs).1 ++ (throughQuote cs).2 = cs := by
  induction cs with
  | nil => rfl
  | cons c cs ih =>
      unfold throughQuote
      split
      next => rfl
      next => simpa using ih

theorem blob_reads (mark : Char) (cs : List Char) :
    (blob mark cs).Reads (mark :: '\x27' :: cs) := by
  have h := List.takeWhile_append_dropWhile (p := Text.isHexDigit) (l := cs)
  unfold blob
  split
  next => exact Reads.bad (by simp) (by simp)
  next c rest hcons =>
    rw [hcons] at h
    split
    next hc =>
      subst hc
      dsimp only
      split
      next => exact ⟨by simp [taken], by simpa [taken] using h⟩
      next => exact Reads.bad (by simp) (by simpa using h)
    next =>
      refine Reads.bad (by simp) ?_
      have hquote := throughQuote_append (c :: rest)
      simpa [List.append_assoc, hquote] using h

end Lexeme

end TaggedSql
