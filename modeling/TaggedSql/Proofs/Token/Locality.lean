import TaggedSql.Proofs.Token.Filler
import TaggedSql.Proofs.Token.Source

/-!
# Reading a source in parts

A blank character ends every token, and a newline every line comment too. So the tokens of a source
without misspelled ones stay the same when a newline and any further text are put behind it, and what
stands behind the newline is read as if the source began there, except that its places are shifted.

* `Lexeme.read_append`: a lexeme before a blank character;
* `Gap.read_append`: a gap before a newline;
* `Lexer.tokens_shift`: tokens at a later place;
* `tokenize_append`: the tokens of a source and a newline, and those of the text behind it.
-/

namespace TaggedSql

variable {b : Char} {more : List Char}

namespace Text

theorem takeWhile_append_stop {p : Char → Bool} (hp : p b = false) (cs : List Char) :
    (cs ++ b :: more).takeWhile p = cs.takeWhile p := by
  induction cs with
  | nil => simp [hp]
  | cons c cs ih => simp [List.takeWhile_cons, ih]

theorem dropWhile_append_stop {p : Char → Bool} (hp : p b = false) (cs : List Char) :
    (cs ++ b :: more).dropWhile p = cs.dropWhile p ++ b :: more := by
  induction cs with
  | nil => simp [hp]
  | cons c cs ih =>
    rw [List.cons_append, List.dropWhile_cons, List.dropWhile_cons, ih]
    split <;> rfl

/-- A test that a character fails does not see the character where a text ends. -/
theorem any_head?_append_stop {p : Char → Bool} (hp : p b = false) (cs : List Char) :
    (cs ++ b :: more).head?.any p = cs.head?.any p := by
  cases cs with
  | nil => simp [hp]
  | cons c cs => rfl

theorem head?_append_stop {c : Char} (hc : c ≠ b) (cs : List Char) :
    (cs ++ b :: more).head? = some c ↔ cs.head? = some c := by
  cases cs with
  | nil => simp [hc.symm]
  | cons d cs => simp

/-- A quoted text before another character ends where it ends without one. -/
theorem split?_append {quote : Char} (hquote : quote ≠ b) {cs body rest : List Char}
    (h : split? quote cs = some (body, rest)) :
    split? quote (cs ++ b :: more) = some (body, rest ++ b :: more) := by
  fun_induction split? quote cs generalizing body with
  | case1 => cases h
  | case2 =>
    cases h
    simp [split?, hquote.symm]
  | case3 => cases h
  | case4 cs ih =>
    obtain ⟨⟨b, r⟩, hsplit, heq⟩ := Option.map_eq_some_iff.1 h
    cases heq
    simp [split?, ih hsplit]
  | case5 d cs hd =>
    cases h
    simp [split?, hd]
  | case6 c d cs hc ih =>
    obtain ⟨⟨b, r⟩, hsplit, heq⟩ := Option.map_eq_some_iff.1 h
    cases heq
    have hrest := ih hsplit
    rw [List.cons_append] at hrest
    simp [split?, hc, hrest]

end Text

open Text

/-! ### Gaps -/

namespace Gap

/-- What becomes of a gap when more text is put behind what was read: a gap that ran to the end goes
on. -/
def extended (tail : List Char) : Gap → Gap
  | closed skipped [] => after skipped (read tail)
  | closed skipped (c :: cs) => closed skipped (c :: cs ++ tail)
  | unclosed skipped comment => unclosed skipped (comment ++ tail)

theorem extended_after (tail front : List Char) (g : Gap) :
    extended tail (after front g) = after front (extended tail g) := by
  cases g with
  | unclosed skipped comment => rfl
  | closed skipped rest =>
    cases rest with
    | nil => rw [extended, after, extended, after_after]
    | cons c cs => rfl

theorem blockEnd?_append {cs comment rest : List Char} (h : blockEnd? cs = some (comment, rest))
    (tail : List Char) : blockEnd? (cs ++ tail) = some (comment, rest ++ tail) := by
  fun_induction blockEnd? cs generalizing comment with
  | case1 => cases h
  | case2 => cases h
  | case3 c d cs hend =>
    cases h
    simp [blockEnd?, hend]
  | case4 c d cs hend ih =>
    obtain ⟨⟨front, back⟩, hrec, heq⟩ := Option.map_eq_some_iff.1 h
    cases heq
    have hrest := ih hrec
    rw [List.cons_append] at hrest
    simp only [List.cons_append, blockEnd?, if_neg hend, hrest, Option.map_some]

/-- Whether a gap is closed. -/
def isClosed : Gap → Bool
  | closed _ _ => true
  | unclosed _ _ => false

theorem isClosed_after (front : List Char) (g : Gap) : (after front g).isClosed = g.isClosed := by
  cases g <;> rfl

/-- A gap before a newline is read as without it; one that reaches the newline goes on behind it. -/
theorem read_append {cs : List Char} (h : (read cs).isClosed = true) :
    read (cs ++ '\n' :: more) = extended ('\n' :: more) (read cs) := by
  fun_induction read cs with
  | case1 =>
    show read ('\n' :: more) = after [] (read ('\n' :: more))
    cases read ('\n' :: more) <;> rfl
  | case2 c cs hblank ih =>
    rw [isClosed_after] at h
    rw [List.cons_append, read, if_pos hblank, ih h, extended_after]
  | case3 c cs hblank hline ih =>
    rw [isClosed_after] at h
    have hline' : c = '-' ∧ (cs ++ '\n' :: more).head? = some '-' :=
      ⟨hline.1, (head?_append_stop (by decide) cs).2 hline.2⟩
    rw [List.cons_append, read, if_neg hblank, if_pos hline', extended_after,
      takeWhile_append_stop (by decide), dropWhile_append_stop (by decide), ih h]
  | case4 c cs hblank hline hblock hend => cases h
  | case5 c cs hblank hline hblock comment rest hend ih =>
    rw [isClosed_after] at h
    have hline' : ¬ (c = '-' ∧ (cs ++ '\n' :: more).head? = some '-') :=
      fun hdash => hline ⟨hdash.1, (head?_append_stop (by decide) cs).1 hdash.2⟩
    have hblock' : c = '/' ∧ (cs ++ '\n' :: more).head? = some '*' :=
      ⟨hblock.1, (head?_append_stop (by decide) cs).2 hblock.2⟩
    have htail : (cs ++ '\n' :: more).tail = cs.tail ++ '\n' :: more := by
      cases cs with
      | nil => simp at hblock
      | cons d cs => rfl
    have hend' := blockEnd?_append hend ('\n' :: more)
    rw [List.cons_append, read, if_neg hblank, if_neg hline', if_pos hblock']
    rw [← htail] at hend'
    split
    next hnone => rw [hend'] at hnone; cases hnone
    next comment' rest' hsome =>
      rw [hend'] at hsome
      cases hsome
      rw [ih h, extended_after]
  | case6 c cs hblank hline hblock =>
    have hline' : ¬ (c = '-' ∧ (cs ++ '\n' :: more).head? = some '-') :=
      fun hdash => hline ⟨hdash.1, (head?_append_stop (by decide) cs).1 hdash.2⟩
    have hblock' : ¬ (c = '/' ∧ (cs ++ '\n' :: more).head? = some '*') :=
      fun hslash => hblock ⟨hslash.1, (head?_append_stop (by decide) cs).1 hslash.2⟩
    rw [List.cons_append, read, if_neg hblank, if_neg hline', if_neg hblock']
    rfl

end Gap

/-! ### Lexemes -/

namespace Lexeme

/-- The lexeme with more text behind it. -/
def extended (x : Lexeme) (tail : List Char) : Lexeme := { x with rest := x.rest ++ tail }

section Blank

variable (hb : isBlank b = true)
include hb

theorem string_append {cs : List Char} (h : (string cs).kind.isProblem = false) :
    string (cs ++ b :: more) = (string cs).extended (b :: more) := by
  unfold string at h ⊢
  cases hsplit : split? '\x27' cs with
  | none =>
    rw [hsplit] at h
    cases h
  | some found =>
    rw [split?_append (ne_of_isBlank hb (by decide)).symm hsplit]
    rfl

theorem quotedIdentifier_append {quote : Char} (hquote : isBlank quote = false) {cs : List Char}
    (h : (quotedIdentifier quote cs).kind.isProblem = false) :
    quotedIdentifier quote (cs ++ b :: more) =
      (quotedIdentifier quote cs).extended (b :: more) := by
  unfold quotedIdentifier at h ⊢
  cases hsplit : split? quote cs with
  | none =>
    rw [hsplit] at h
    cases h
  | some found =>
    obtain ⟨body, rest⟩ := found
    rw [hsplit] at h
    rw [split?_append (ne_of_isBlank hb hquote).symm hsplit]
    cases body with
    | nil => cases h
    | cons c body => rfl

theorem blob_append {mark : Char} {cs : List Char} (h : (blob mark cs).kind.isProblem = false) :
    blob mark (cs ++ b :: more) = (blob mark cs).extended (b :: more) := by
  unfold blob at h ⊢
  rw [takeWhile_append_stop (isHexDigit_of_isBlank hb),
    dropWhile_append_stop (isHexDigit_of_isBlank hb)]
  dsimp only at h ⊢
  cases hrest : cs.dropWhile isHexDigit with
  | nil =>
    rw [hrest] at h
    cases h
  | cons c rest =>
    rw [hrest] at h
    dsimp only [List.cons_append] at h ⊢
    by_cases hc : c = '\x27'
    · rw [if_pos hc] at h ⊢
      rw [if_pos hc]
      by_cases heven : (cs.takeWhile isHexDigit).length % 2 = 0
      · rw [if_pos heven, if_pos heven]
        rfl
      · rw [if_neg heven] at h
        cases h
    · rw [if_neg hc] at h
      cases h

theorem word_append (cs : List Char) :
    word (cs ++ b :: more) = (word cs).extended (b :: more) := by
  unfold word
  rw [takeWhile_append_stop (continuesWord_of_isBlank hb),
    dropWhile_append_stop (continuesWord_of_isBlank hb)]
  rfl

theorem namedParameter_append (cs : List Char) :
    namedParameter (cs ++ b :: more) = (namedParameter cs).extended (b :: more) := by
  unfold namedParameter
  rw [takeWhile_append_stop (continuesWord_of_isBlank hb),
    dropWhile_append_stop (continuesWord_of_isBlank hb)]
  rfl

/-! ### Numerals -/

theorem endNumeral_append {kind : Kind} {text cs : List Char}
    (h : (endNumeral kind text cs).kind.isProblem = false) :
    endNumeral kind text (cs ++ b :: more) =
      (endNumeral kind text cs).extended (b :: more) := by
  cases cs with
  | nil =>
    simp [endNumeral, spoilsNumeral_of_isBlank hb, extended, plain]
  | cons c cs =>
    rw [endNumeral] at h
    rw [List.cons_append, endNumeral, endNumeral]
    by_cases hc : spoilsNumeral c = true
    · rw [if_pos hc] at h
      cases h
    · rw [if_neg hc, if_neg hc]
      rfl

theorem fraction_append_blank (cs : List Char) :
    fraction (cs ++ b :: more) = ((fraction cs).1, (fraction cs).2 ++ b :: more) := by
  by_cases h : ∃ d rest, cs = '.' :: d :: rest
  · obtain ⟨d, rest, rfl⟩ := h
    rw [List.cons_append, List.cons_append, fraction, fraction,
      takeWhile_append_stop (isDigit_of_isBlank hb), dropWhile_append_stop (isDigit_of_isBlank hb)]
    by_cases hd : d.isDigit = true
    · rw [if_pos hd, if_pos hd]
    · rw [if_neg hd, if_neg hd]
      rfl
  · have hnone : fraction cs = ([], cs) := by
      unfold fraction
      split
      next d rest => exact absurd ⟨d, rest, rfl⟩ h
      next => rfl
    rw [hnone]
    unfold fraction
    split
    next d rest heq =>
      -- The point was the last character, and no digit but the blank follows it.
      rcases cs with _ | ⟨c, _ | ⟨d', cs⟩⟩
      · exact absurd (List.cons.inj heq).1 (ne_of_isBlank hb (by decide))
      · cases heq
        rw [if_neg (by simp [isDigit_of_isBlank hb])]
      · cases heq
        exact absurd ⟨_, _, rfl⟩ h
    next => rfl

theorem exponentMark?_append_blank (cs : List Char) :
    exponentMark? (cs ++ b :: more) =
      (exponentMark? cs).map fun found => (found.1, found.2 ++ b :: more) := by
  have hne : ∀ c, isBlank c = false → b ≠ c := fun c hc => ne_of_isBlank hb hc
  cases cs with
  | nil => simp [exponentMark?, hne 'e' (by decide), hne 'E' (by decide)]
  | cons c cs =>
    rw [List.cons_append]
    unfold exponentMark?
    dsimp only
    by_cases hc : c = 'e' ∨ c = 'E'
    · rw [if_pos hc, if_pos hc]
      cases cs with
      | nil => simp [hne '+' (by decide), hne '-' (by decide)]
      | cons d cs =>
        rw [List.cons_append]
        by_cases hplus : d = '+'
        · subst hplus
          rfl
        by_cases hminus : d = '-'
        · subst hminus
          rfl
        simp [hplus, hminus]
    · rw [if_neg hc, if_neg hc]
      rfl

theorem behindFraction_append {policy : OverflowPolicy} {whole part cs : List Char}
    (h : (behindFraction policy whole part cs).kind.isProblem = false) :
    behindFraction policy whole part (cs ++ b :: more) =
      (behindFraction policy whole part cs).extended (b :: more) := by
  unfold behindFraction at h ⊢
  rw [exponentMark?_append_blank hb]
  cases hmark : exponentMark? cs with
  | some found =>
    rw [hmark] at h
    dsimp only [Option.map_some] at h ⊢
    rw [takeWhile_append_stop (isDigit_of_isBlank hb), dropWhile_append_stop (isDigit_of_isBlank hb)]
    by_cases hdigits : found.2.takeWhile Char.isDigit = []
    · rw [if_pos hdigits] at h
      cases h
    · rw [if_neg hdigits] at h ⊢
      rw [if_neg hdigits]
      exact endNumeral_append hb h
  | none =>
    rw [hmark] at h
    dsimp only [Option.map_none] at h ⊢
    by_cases hpart : part = []
    · rw [if_pos hpart] at h ⊢
      rw [if_pos hpart]
      exact endNumeral_append hb h
    · rw [if_neg hpart] at h ⊢
      rw [if_neg hpart]
      exact endNumeral_append hb h

theorem decimal_append {policy : OverflowPolicy} {cs : List Char}
    (h : (decimal policy cs).kind.isProblem = false) :
    decimal policy (cs ++ b :: more) = (decimal policy cs).extended (b :: more) := by
  unfold decimal at h ⊢
  dsimp only at h ⊢
  rw [takeWhile_append_stop (isDigit_of_isBlank hb), dropWhile_append_stop (isDigit_of_isBlank hb),
    fraction_append_blank hb]
  exact behindFraction_append hb h

theorem hexadecimal_append {mark cs : List Char}
    (h : (hexadecimal mark cs).kind.isProblem = false) :
    hexadecimal mark (cs ++ b :: more) = (hexadecimal mark cs).extended (b :: more) := by
  unfold hexadecimal at h ⊢
  dsimp only at h ⊢
  rw [takeWhile_append_stop (isHexDigit_of_isBlank hb),
    dropWhile_append_stop (isHexDigit_of_isBlank hb),
    any_head?_append_stop (spoilsNumeral_of_isBlank hb)]
  split at h
  next => cases h
  next hproper =>
    rw [if_neg hproper, if_neg hproper]
    split at h
    next => cases h
    next hshort =>
      rw [if_neg hshort, if_neg hshort]
      rfl

/-- Two characters at the front of a text with a blank behind it are those of the text. -/
theorem append_blank_ne {a a' : Char} {cs : List Char} (h : ∀ rest, cs = a :: a' :: rest → False)
    (ha : isBlank a = false) (ha' : isBlank a' = false) (rest : List Char) :
    cs ++ b :: more ≠ a :: a' :: rest := by
  intro heq
  rcases cs with _ | ⟨c, _ | ⟨d, cs⟩⟩
  · exact ne_of_isBlank hb ha (List.cons.inj heq).1
  · exact ne_of_isBlank hb ha' (List.cons.inj (List.cons.inj heq).2).1
  · cases heq
    exact h cs rfl

theorem numeral_append {policy : OverflowPolicy} {cs : List Char}
    (h : (numeral policy cs).kind.isProblem = false) :
    numeral policy (cs ++ b :: more) = (numeral policy cs).extended (b :: more) := by
  unfold numeral at h ⊢
  split at h
  next rest => exact hexadecimal_append hb h
  next rest => exact hexadecimal_append hb h
  next hlower hupper =>
    rw [← decimal_append hb h]
    split
    next rest heq => exact absurd heq (append_blank_ne hb hlower (by decide) (by decide) rest)
    next rest heq => exact absurd heq (append_blank_ne hb hupper (by decide) (by decide) rest)
    next => rfl

/-! ### Signs -/

/-- A spelling without blanks begins a text with a blank behind it only if it begins the text. -/
theorem isPrefixOf_append_blank {spelling : List Char}
    (h : ∀ c ∈ spelling, isBlank c = false) (cs : List Char) :
    spelling.isPrefixOf (cs ++ b :: more) = spelling.isPrefixOf cs := by
  induction spelling generalizing cs with
  | nil => simp
  | cons c spelling ih =>
    rw [List.forall_mem_cons] at h
    have hc := ne_of_isBlank hb h.1
    cases cs with
    | nil => simp [List.isPrefixOf, hc.symm]
    | cons d cs => simp [List.isPrefixOf, ih h.2]

theorem spelled?_append (cs : List Char) :
    Symbol.spelled? (cs ++ b :: more) = Symbol.spelled? cs := by
  have hplain : ∀ s ∈ Symbol.spellings, s.1.all (fun c => !isBlank c) = true := by decide
  unfold Symbol.spelled?
  refine List.find?_congr fun s hs => ?_
  exact isPrefixOf_append_blank hb (by simpa using hplain s hs) cs

theorem sign_append {c : Char} {cs : List Char} (h : (sign c cs).kind.isProblem = false) :
    sign c (cs ++ b :: more) = (sign c cs).extended (b :: more) := by
  unfold sign at h ⊢
  rw [← List.cons_append, spelled?_append hb]
  cases hspelled : Symbol.spelled? (c :: cs) with
  | some found =>
    obtain ⟨spelling, s⟩ := found
    obtain ⟨_, happ⟩ := Symbol.append_drop_of_spelled? hspelled
    have hlength : spelling.length ≤ (c :: cs).length := by
      rw [← happ, List.length_append]
      omega
    dsimp only
    rw [List.drop_append_of_le_length hlength]
    rfl
  | none =>
    rw [hspelled] at h
    dsimp only at h ⊢
    by_cases hc : c = '?'
    · rw [if_pos hc, if_pos hc]
      rfl
    · rw [if_neg hc] at h
      cases h

/-- A lexeme before a blank character is read as without it. -/
theorem read_append {policy : OverflowPolicy} {c : Char} {cs : List Char}
    (h : (read policy c cs).kind.isProblem = false) :
    read policy c (cs ++ b :: more) = (read policy c cs).extended (b :: more) := by
  unfold read at h ⊢
  by_cases hstring : c = '\x27'
  · rw [if_pos hstring] at h ⊢
    rw [if_pos hstring]
    exact string_append hb h
  rw [if_neg hstring] at h ⊢
  rw [if_neg hstring]
  by_cases hquoted : c = '\x22' ∨ c = '\x60'
  · rw [if_pos hquoted] at h ⊢
    rw [if_pos hquoted]
    have hquote : isBlank c = false := by rcases hquoted with rfl | rfl <;> decide
    exact quotedIdentifier_append hb hquote h
  rw [if_neg hquoted] at h ⊢
  have hquote : (cs ++ b :: more).head? = some '\x27' ↔ cs.head? = some '\x27' :=
    head?_append_stop (ne_of_isBlank hb (by decide)).symm cs
  rw [if_neg hquoted, any_head?_append_stop (isDigit_of_isBlank hb),
    any_head?_append_stop (startsWord_of_isBlank hb)]
  simp only [hquote]
  by_cases hblob : (c = 'X' ∨ c = 'x') ∧ cs.head? = some '\x27'
  · rw [if_pos hblob] at h ⊢
    rw [if_pos hblob]
    cases cs with
    | nil => cases hblob.2
    | cons d cs => exact blob_append hb h
  rw [if_neg hblob] at h ⊢
  rw [if_neg hblob]
  by_cases hdigit : c.isDigit = true ∨ c = '.' ∧ cs.head?.any Char.isDigit = true
  · rw [if_pos hdigit] at h ⊢
    rw [if_pos hdigit]
    exact numeral_append hb h
  rw [if_neg hdigit] at h ⊢
  rw [if_neg hdigit]
  by_cases hword : startsWord c = true
  · rw [if_pos hword, if_pos hword]
    exact word_append hb (c :: cs)
  rw [if_neg hword] at h ⊢
  rw [if_neg hword]
  by_cases hnamed : c = ':' ∧ cs.head?.any startsWord = true
  · rw [if_pos hnamed, if_pos hnamed]
    exact namedParameter_append hb cs
  rw [if_neg hnamed] at h ⊢
  rw [if_neg hnamed]
  exact sign_append hb h

end Blank

end Lexeme

/-! ### Tokens -/

/-- The span a number of bytes later. -/
def Span.shift (k : Nat) (s : Span) : Span := ⟨s.start + k, s.stop + k⟩

/-- The token a number of bytes later. -/
def Token.shift (k : Nat) (t : Token) : Token := { t with span := t.span.shift k }

namespace Lexer

variable {policy : OverflowPolicy} {position : Nat} {cs : List Char}

/-- The tokens depend on the next token and on what follows it only. -/
theorem tokens_congr {l l' : Lexer} (h : l.next = l'.next) : l.tokens = l'.tokens := by
  cases hend : l.next.1.isEnd with
  | true =>
    have hend' : l'.next.1.isEnd = true := h ▸ hend
    rw [tokens_of_end hend, tokens_of_end hend', h]
  | false =>
    have hend' : l'.next.1.isEnd = false := h ▸ hend
    rw [tokens_of_not_end hend, tokens_of_not_end hend', h]

/-- A gap may be passed in two parts. -/
theorem next_of_after {front cs' : List Char} (h : Gap.read cs = Gap.after front (Gap.read cs')) :
    (Lexer.mk policy position cs).next = (Lexer.mk policy (position + width front) cs').next := by
  unfold next
  dsimp only
  rw [h]
  cases Gap.read cs' with
  | unclosed skipped comment => simp [Gap.after, commentToken, Nat.add_assoc]
  | closed skipped rest =>
    cases rest with
    | nil => simp [Gap.after, Nat.add_assoc]
    | cons c cs => simp [Gap.after, lexemeToken, Nat.add_assoc]

/-- The lexer with more text behind what it has to read. -/
def extended (l : Lexer) (tail : List Char) : Lexer := { l with rest := l.rest ++ tail }

/-- A token before a newline is read as without it. -/
theorem next_append {l : Lexer} (hend : l.next.1.isEnd = false)
    (hspelled : l.next.1.isProblem = false) :
    (l.extended ('\n' :: more)).next = (l.next.1, l.next.2.extended ('\n' :: more)) := by
  cases hread : Gap.read l.rest with
  | unclosed skipped comment =>
    rw [next_of_unclosed hread] at hspelled
    cases hspelled
  | closed skipped rest =>
    cases rest with
    | nil =>
      rw [next_of_end hread] at hend
      cases hend
    | cons c cs =>
      have happend : Gap.read (l.extended ('\n' :: more)).rest =
          .closed skipped (c :: (cs ++ '\n' :: more)) := by
        show Gap.read (l.rest ++ '\n' :: more) = _
        rw [Gap.read_append (by rw [hread]; rfl), hread]
        rfl
      rw [next_of_lexeme hread] at hspelled
      have hlexeme : Lexeme.read (l.extended ('\n' :: more)).policy c (cs ++ '\n' :: more) = _ :=
        Lexeme.read_append (by decide) hspelled
      rw [next_of_lexeme hread, next_of_lexeme happend, hlexeme]
      rfl

/-- Behind the last token before a newline, reading goes on behind the newline. -/
theorem next_append_of_end {l : Lexer} (hend : l.next.1.isEnd = true) :
    (l.extended ('\n' :: more)).next =
      (Lexer.mk l.policy (l.position + width l.rest + 1) more).next := by
  obtain ⟨skipped, hread⟩ := gap_of_isEnd hend
  have hall : skipped = l.rest := by
    have hall := Gap.all_read l.rest
    rwa [hread, Gap.all, List.append_nil] at hall
  have hblank : isBlank '\n' = true := by decide
  have happend : Gap.read (l.rest ++ '\n' :: more) = _ := Gap.read_append (by rw [hread]; rfl)
  rw [hread, Gap.extended, Gap.read, if_pos hblank, Gap.after_after, hall] at happend
  rw [extended, next_of_after happend, width_append]
  rfl

theorem tokens_ne_nil (l : Lexer) : l.tokens ≠ [] := by
  obtain ⟨ts, stop, htokens, _⟩ := l.exists_tokens_eq
  rw [htokens]
  exact List.append_ne_nil_of_right_ne_nil ts (List.cons_ne_nil _ _)

/-- The tokens of a text without misspelled ones, and those behind a newline. -/
theorem tokens_append {source : String} {l : Lexer} (hplaced : l.Placed source)
    (hspelled : ∀ t ∈ l.tokens, t.isProblem = false) :
    (l.extended ('\n' :: more)).tokens =
      l.tokens.dropLast ++ (Lexer.mk l.policy (width source.toList + 1) more).tokens := by
  induction l using tokens_induction with
  | hend l hend =>
    obtain ⟨before, hsource, hposition⟩ := hplaced
    rw [tokens_congr (next_append_of_end hend), tokens_of_end hend, hsource, width_append, hposition]
    rfl
  | hnext l hend ih =>
    rw [tokens_of_not_end hend, List.forall_mem_cons] at hspelled
    have hnext : (l.extended ('\n' :: more)).next = _ := next_append hend hspelled.1
    have hend' : (l.extended ('\n' :: more)).next.1.isEnd = false := by rw [hnext]; exact hend
    rw [tokens_of_not_end hend', hnext, tokens_of_not_end hend,
      List.dropLast_cons_of_ne_nil (tokens_ne_nil _)]
    dsimp only
    rw [ih hplaced.next.1 hspelled.2, policy_next]
    rfl

/-- At a later place the same tokens are read, with their places shifted. -/
theorem tokens_shift (k : Nat) (l : Lexer) :
    (Lexer.mk l.policy (l.position + k) l.rest).tokens = l.tokens.map (Token.shift k) := by
  have hnext : ∀ l : Lexer, (Lexer.mk l.policy (l.position + k) l.rest).next =
      (l.next.1.shift k, ⟨l.next.2.policy, l.next.2.position + k, l.next.2.rest⟩) := by
    intro l
    unfold next
    dsimp only
    cases Gap.read l.rest with
    | unclosed skipped comment =>
      simp [commentToken, Token.shift, Span.shift]
      omega
    | closed skipped rest =>
      cases rest with
      | nil =>
        simp [Token.endAt, Token.shift, Span.shift]
        omega
      | cons c cs =>
        simp [lexemeToken, Token.shift, Span.shift]
        omega
  induction l using tokens_induction with
  | hend l hend =>
    have hend' : (Lexer.mk l.policy (l.position + k) l.rest).next.1.isEnd = true := by
      rw [hnext]
      exact hend
    rw [tokens_of_end hend, tokens_of_end hend', hnext]
    rfl
  | hnext l hend ih =>
    have hend' : (Lexer.mk l.policy (l.position + k) l.rest).next.1.isEnd = false := by
      rw [hnext]
      exact hend
    rw [tokens_of_not_end hend, tokens_of_not_end hend', hnext, List.map_cons, ← ih]

/-- The token of a semicolon at a place. -/
def semicolonAt (position : Nat) : Token :=
  ⟨.symbol .semicolon, ⟨position, position + 1⟩, ";"⟩

theorem tokens_semicolon (policy : OverflowPolicy) (position : Nat) (cs : List Char) :
    (Lexer.mk policy position (';' :: cs)).tokens =
      semicolonAt position :: (Lexer.mk policy (position + 1) cs).tokens := by
  have hblank : isBlank ';' = false := by decide
  have hread : Gap.read (';' :: cs) = .closed [] (';' :: cs) := by
    rw [Gap.read, hblank]
    rfl
  have hlexeme : Lexeme.read policy ';' cs = Lexeme.plain (.symbol .semicolon) [';'] cs := by
    have hword : Lexeme.startsWord ';' = false := by decide
    have hspelled : Symbol.spelled? (';' :: cs) = some ([';'], .semicolon) := by
      simp [Symbol.spelled?, Symbol.spellings, List.isPrefixOf]
    simp [Lexeme.read, hword, Lexeme.sign, hspelled, Char.isDigit]
  have hnext : (Lexer.mk policy position (';' :: cs)).next =
      (semicolonAt position, ⟨policy, position + 1, cs⟩) := by
    rw [next_of_lexeme hread]
    dsimp only
    rw [hlexeme]
    rfl
  rw [tokens_of_not_end (by rw [hnext]; rfl), hnext]

end Lexer

/-- The tokens of a source without misspelled ones, of a newline and a semicolon behind it, and of
what follows. -/
theorem tokenize_append {policy : OverflowPolicy} {source : String}
    (hspelled : ∀ t ∈ tokenize policy source, t.isProblem = false) (source' : String) :
    tokenize policy (source ++ "\n;" ++ source') =
      (tokenize policy source).dropLast ++ Lexer.semicolonAt (width source.toList + 1) ::
        (tokenize policy source').map (Token.shift (width source.toList + 2)) := by
  have hchars : (source ++ "\n;" ++ source').toList =
      source.toList ++ '\n' :: ';' :: source'.toList := by
    simp
  have hshift : (Lexer.mk policy (width source.toList + 2) source'.toList).tokens =
      (tokenize policy source').map (Token.shift (width source.toList + 2)) := by
    have hshift := Lexer.tokens_shift (width source.toList + 2) (Lexer.start policy source')
    rwa [Lexer.start, Nat.zero_add] at hshift
  have happend : ((Lexer.start policy source).extended ('\n' :: ';' :: source'.toList)).tokens = _ :=
    Lexer.tokens_append (Lexer.placed_start policy source) hspelled
  rw [Lexer.tokens_semicolon] at happend
  rw [← hshift, tokenize, Lexer.start, hchars]
  exact happend

end TaggedSql
