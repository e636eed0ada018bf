import TaggedSql.Grammar.Failure
import TaggedSql.Proofs.Printing.Piece
import TaggedSql.Proofs.Token.Filler

/-!
# The spelling of words, symbols and quoted tokens

Each kind of token that is spelled by its characters alone has a piece: reserved words, symbols,
names with and without quotes, strings, blobs and parameters. A name without quotes is a word that is
not reserved; between quotes every text but the empty one is a name, with each quote doubled.
-/

namespace TaggedSql

open Text Lexeme

/-! ### Characters -/

/-- Whether no gap stands at the beginning of a text that begins with the character. -/
def Gap.isAbsent (c : Char) (cs : List Char) : Bool :=
  !isBlank c && !(c == '-' && cs.head? == some '-') && !(c == '/' && cs.head? == some '*')

theorem Gap.read_of_isAbsent {c : Char} {cs : List Char} (h : Gap.isAbsent c cs = true) :
    Gap.read (c :: cs) = .closed [] (c :: cs) := by
  simp only [Gap.isAbsent, Bool.and_eq_true, Bool.not_eq_true', Bool.and_eq_false_imp,
    beq_iff_eq, beq_eq_false_iff_ne, ne_eq] at h
  obtain ⟨⟨hblank, hline⟩, hblock⟩ := h
  rw [Gap.read, if_neg (by simp [hblank]), if_neg fun hc => hline hc.1 hc.2,
    if_neg fun hc => hblock hc.1 hc.2]

namespace Text

theorem Ended.head?_ne {cs : List Char} (h : Ended cs) {c : Char} (hc : c ≠ ' ') :
    cs.head? ≠ some c := by
  rcases h with rfl | ⟨more, rfl⟩
  · simp
  · intro heq
    exact hc (Option.some.inj heq).symm

/-- What follows a printed token does not continue a run of characters. -/
theorem Ended.takeWhile_append {cs : List Char} (h : Ended cs) {p : Char → Bool}
    (hp : p ' ' = false) {run : List Char} (hrun : ∀ c ∈ run, p c = true) :
    (run ++ cs).takeWhile p = run := by
  rw [List.takeWhile_append_of_pos hrun]
  rcases h with rfl | ⟨more, rfl⟩
  · simp
  · rw [List.takeWhile_cons_of_neg (by simp [hp]), List.append_nil]

theorem Ended.dropWhile_append {cs : List Char} (h : Ended cs) {p : Char → Bool}
    (hp : p ' ' = false) {run : List Char} (hrun : ∀ c ∈ run, p c = true) :
    (run ++ cs).dropWhile p = cs := by
  rw [List.dropWhile_append_of_pos hrun]
  rcases h with rfl | ⟨more, rfl⟩
  · rfl
  · rw [List.dropWhile_cons_of_neg (by simp [hp])]

end Text

namespace Lexeme

theorem isBlank_of_startsWord {c : Char} (h : startsWord c = true) : isBlank c = false := by
  rw [← Bool.not_eq_true]
  intro hblank
  rw [startsWord_of_isBlank hblank] at h
  cases h

theorem isDigit_of_startsWord {c : Char} (h : startsWord c = true) : c.isDigit = false := by
  rw [← Bool.not_eq_true]
  intro hdigit
  rw [Char.isDigit_iff_toNat] at hdigit
  rw [startsWord, Bool.or_eq_true, isAlphabetic, alphabeticIntervals, Interval.covers_cons] at h
  rcases h with h | h
  · rw [if_pos (by have : '9'.toNat = 57 := rfl; omega)] at h
    cases h
  · rw [beq_iff_eq] at h
    subst h
    have : '9'.toNat = 57 := rfl
    have : '_'.toNat = 95 := rfl
    omega

/-- Whether a text is a word: it begins as a name can begin and continues as a name can continue. -/
def isWord : List Char → Bool
  | [] => false
  | c :: cs => startsWord c && cs.all continuesWord

theorem isWord_cons {c : Char} {cs : List Char} (h : isWord (c :: cs) = true) :
    startsWord c = true ∧ ∀ d ∈ cs, continuesWord d = true := by
  rw [isWord, Bool.and_eq_true, List.all_eq_true] at h
  exact h

/-- The kind of a word. -/
def wordKind (cs : List Char) : Kind :=
  match Word.ofText? cs with
  | some w => .word w
  | none => .identifier false

/-- A word is read whole. -/
theorem read_word (policy : OverflowPolicy) {c : Char} {cs more : List Char}
    (h : isWord (c :: cs) = true) (hmore : Ended more) :
    read policy c (cs ++ more) = plain (wordKind (c :: cs)) (c :: cs) more := by
  obtain ⟨hstart, hrest⟩ := isWord_cons h
  have hall : ∀ d ∈ c :: cs, continuesWord d = true := by
    intro d hd
    rcases List.mem_cons.1 hd with rfl | hd
    · exact continuesWord_of_startsWord hstart
    · exact hrest d hd
  have hne : ∀ x : Char, startsWord x = false → c ≠ x := by
    rintro x hx rfl
    rw [hx] at hstart
    cases hstart
  have hquote : (cs ++ more).head? ≠ some '\x27' := by
    cases cs with
    | nil => exact hmore.head?_ne (by decide)
    | cons d ds =>
      intro heq
      have hd := hrest d List.mem_cons_self
      have hfalse : continuesWord '\x27' = false := by decide
      rw [Option.some.inj heq, hfalse] at hd
      cases hd
  have hspace : continuesWord ' ' = false := by decide
  rw [read, if_neg (hne _ (by decide)), if_neg (by simp [hne '\x22' (by decide), hne '\x60' (by decide)]),
    if_neg fun hblob => hquote hblob.2,
    if_neg (by simp [isDigit_of_startsWord hstart, hne '.' (by decide)]), if_pos hstart]
  show plain (wordKind ((c :: cs ++ more).takeWhile continuesWord))
    ((c :: cs ++ more).takeWhile continuesWord) ((c :: cs ++ more).dropWhile continuesWord) = _
  rw [hmore.takeWhile_append hspace hall, hmore.dropWhile_append hspace hall]

/-- A word is not part of a gap. -/
theorem gap_word {c : Char} {cs more : List Char} (h : isWord (c :: cs) = true) :
    Gap.read (c :: (cs ++ more)) = .closed [] (c :: (cs ++ more)) := by
  obtain ⟨hstart, _⟩ := isWord_cons h
  have hne : ∀ x : Char, startsWord x = false → c ≠ x := by
    rintro x hx rfl
    rw [hx] at hstart
    cases hstart
  refine Gap.read_of_isAbsent ?_
  simp [Gap.isAbsent, isBlank_of_startsWord hstart, hne '-' (by decide), hne '/' (by decide)]

end Lexeme

/-! ### Words and symbols -/

namespace Piece

/-- The piece of a word, reserved or not. -/
def ofWord (cs : List Char) (h : isWord cs = true) : Piece where
  kind := wordKind cs
  opening := []
  body := cs
  closing := []
  reads := by
    intro policy more hmore
    cases cs with
    | nil => cases h
    | cons c cs => exact ⟨c, cs ++ more, rfl, gap_word h, read_word policy h hmore⟩
  proper := by
    rw [wordKind]
    cases Word.ofText? cs <;> simp
  plain _ := ⟨rfl, rfl⟩

theorem isWord_spelling (w : Word) : isWord w.spelling.toList = true := by
  have h : ∀ w ∈ Word.all, isWord w.spelling.toList = true := by decide +kernel
  exact h w (Word.mem_all w)

/-- The piece of a reserved word. -/
def word (w : Word) : Piece := ofWord w.spelling.toList (isWord_spelling w)

@[simp]
theorem kind_word (w : Word) : (word w).kind = .word w := by
  show wordKind w.spelling.toList = _
  rw [wordKind, Word.ofText?_spelling]

/-- The piece of an operator or a delimiter. -/
def symbol (s : Symbol) : Piece where
  kind := .symbol s
  opening := []
  body := s.spelling.toList
  closing := []
  reads := by
    rintro policy more (rfl | ⟨more, rfl⟩)
    · cases s <;> exact ⟨_, _, rfl, Gap.read_of_isAbsent rfl, rfl⟩
    · cases s <;> exact ⟨_, _, rfl, Gap.read_of_isAbsent rfl, rfl⟩
  proper := by simp
  plain h := by cases h

@[simp]
theorem kind_symbol (s : Symbol) : (symbol s).kind = .symbol s := rfl

@[simp]
theorem kind_ofWord (w : Word) : (Terminal.word w).kind = .word w := rfl

@[simp]
theorem kind_ofSymbol (s : Symbol) : (Terminal.symbol s).kind = .symbol s := rfl

/-- The piece of a terminal. -/
def terminal : Terminal → Piece
  | .word w => word w
  | .symbol s => symbol s

@[simp]
theorem kind_terminal (t : Terminal) : (terminal t).kind = t.kind := by
  cases t with
  | word w => exact kind_word w
  | symbol s => rfl

/-- Items with a terminal between neighbours. -/
def separated (t : Terminal) : List (List Piece) → List Piece
  | [] => []
  | x :: xs => x ++ xs.flatMap (terminal t :: ·)

/-! ### Quoted tokens -/

/-- A doubled text ends at the quote behind it. -/
theorem split?_double {quote : Char} (s : List Char) {more : List Char}
    (hmore : more.head? ≠ some quote) :
    split? quote (double quote s ++ quote :: more) = some (double quote s, more) := by
  induction s with
  | nil =>
    cases more with
    | nil => simp [double, split?]
    | cons d ds =>
      have hd : d ≠ quote := fun h => hmore (by rw [h]; rfl)
      simp [double, split?, hd]
  | cons c s ih =>
    by_cases hc : c = quote
    · subst hc
      simp [double, split?, ih]
    · obtain ⟨d, ds, hcons⟩ : ∃ d ds, double quote s ++ quote :: more = d :: ds := by
        cases hs : double quote s with
        | nil => exact ⟨_, _, rfl⟩
        | cons d ds => exact ⟨_, _, rfl⟩
      rw [double, if_neg hc, List.cons_append, hcons, split?, if_neg hc, ← hcons, ih]
      rfl

theorem double_ne_nil {quote : Char} {s : List Char} (h : s ≠ []) : double quote s ≠ [] := by
  cases s with
  | nil => exact absurd rfl h
  | cons c s =>
    rw [double]
    split <;> simp

/-- The piece of a string. -/
def string (s : List Char) : Piece where
  kind := .string
  opening := ['\x27']
  body := double '\x27' s
  closing := ['\x27']
  reads := by
    intro policy more hmore
    refine ⟨'\x27', double '\x27' s ++ '\x27' :: more, by simp, Gap.read_of_isAbsent rfl, ?_⟩
    have hsplit := split?_double s (hmore.head?_ne (c := '\x27') (by decide))
    rw [Lexeme.read, if_pos rfl, Lexeme.string, hsplit]
  proper := by simp
  plain h := by cases h

end Piece

/-- The quotes that may stand around a name. -/
inductive Quote where
  | double
  | backtick
  deriving DecidableEq, Repr

/-- The character of a quote. -/
def Quote.char : Quote → Char
  | .double => '\x22'
  | .backtick => '\x60'

namespace Piece

/-- The piece of a name in quotes. -/
def quoted (q : Quote) (s : List Char) (h : s ≠ []) : Piece where
  kind := .identifier true
  opening := [q.char]
  body := Text.double q.char s
  closing := [q.char]
  reads := by
    intro policy more hmore
    have hq : q.char ≠ ' ' := by cases q <;> decide
    have hstring : q.char ≠ '\x27' := by cases q <;> decide
    have hgap : Gap.isAbsent q.char (Text.double q.char s ++ q.char :: more) = true := by
      cases q <;> rfl
    have hsplit := split?_double s (hmore.head?_ne hq)
    refine ⟨q.char, Text.double q.char s ++ q.char :: more, by simp, Gap.read_of_isAbsent hgap, ?_⟩
    rw [Lexeme.read, if_neg hstring, if_pos (by cases q <;> simp [Quote.char]),
      Lexeme.quotedIdentifier, hsplit]
    cases hbody : Text.double q.char s with
    | nil => exact absurd hbody (double_ne_nil h)
    | cons d ds => rfl
  proper := by simp
  plain h := by cases h

/-- Hexadecimal digits in pairs between quotes are read as a blob, whichever its mark is. -/
theorem read_blob (policy : OverflowPolicy) {mark : Char} (hmark : mark = 'X' ∨ mark = 'x')
    {digits : List Char} (hdigits : ∀ d ∈ digits, isHexDigit d = true)
    (heven : digits.length % 2 = 0) (more : List Char) :
    Lexeme.read policy mark ('\x27' :: (digits ++ '\x27' :: more)) =
      ⟨.blob, [mark, '\x27'], digits, ['\x27'], more⟩ := by
  have hquote : ¬ isHexDigit '\x27' = true := by decide
  have htake : (digits ++ '\x27' :: more).takeWhile isHexDigit = digits := by
    rw [List.takeWhile_append_of_pos hdigits, List.takeWhile_cons_of_neg hquote, List.append_nil]
  have hdrop : (digits ++ '\x27' :: more).dropWhile isHexDigit = '\x27' :: more := by
    rw [List.dropWhile_append_of_pos hdigits, List.dropWhile_cons_of_neg hquote]
  have hread : Lexeme.read policy mark ('\x27' :: (digits ++ '\x27' :: more)) =
      Lexeme.blob mark (digits ++ '\x27' :: more) := by
    rcases hmark with rfl | rfl <;> rfl
  rw [hread]
  simp only [Lexeme.blob, htake, hdrop, heven, if_true]

/-- The piece of a blob. -/
def blob (digits : List Char) (hdigits : ∀ d ∈ digits, isHexDigit d = true)
    (heven : digits.length % 2 = 0) : Piece where
  kind := .blob
  opening := ['X', '\x27']
  body := digits
  closing := ['\x27']
  reads := by
    intro policy more _
    exact ⟨'X', '\x27' :: (digits ++ '\x27' :: more), by simp, Gap.read_of_isAbsent rfl,
      read_blob policy (.inl rfl) hdigits heven more⟩
  proper := by simp
  plain h := by cases h

/-- The piece of a parameter without a name. -/
def unnamed : Piece where
  kind := .parameter false
  opening := []
  body := ['?']
  closing := []
  reads := by
    rintro policy more (rfl | ⟨more, rfl⟩)
    · exact ⟨_, _, rfl, Gap.read_of_isAbsent rfl, rfl⟩
    · exact ⟨_, _, rfl, Gap.read_of_isAbsent rfl, rfl⟩
  proper := by simp
  plain h := by cases h

/-- The piece of a parameter with a name. -/
def named (name : List Char) (h : isWord name = true) : Piece where
  kind := .parameter true
  opening := [':']
  body := name
  closing := []
  reads := by
    intro policy more hmore
    cases name with
    | nil => cases h
    | cons c cs =>
      obtain ⟨hstart, hrest⟩ := isWord_cons h
      have hall : ∀ d ∈ c :: cs, continuesWord d = true := by
        intro d hd
        rcases List.mem_cons.1 hd with rfl | hd
        · exact continuesWord_of_startsWord hstart
        · exact hrest d hd
      have hspace : continuesWord ' ' = false := by decide
      have hcolon : startsWord ':' = false := by decide
      have hdigit : Char.isDigit ':' = false := by decide
      refine ⟨':', c :: cs ++ more, by simp, Gap.read_of_isAbsent rfl, ?_⟩
      rw [Lexeme.read, if_neg (by decide), if_neg (by decide), if_neg (by simp),
        if_neg (by simp [hdigit]), if_neg (by simp [hcolon]), if_pos (by simp [hstart]),
        Lexeme.namedParameter, hmore.takeWhile_append hspace hall,
        hmore.dropWhile_append hspace hall]
  proper := by simp
  plain h := by cases h

end Piece

/-! ### Names -/

/-- A word that is not reserved. -/
structure PlainName where
  text : List Char
  isWord : Lexeme.isWord text = true
  unreserved : Word.ofText? text = none

namespace PlainName

/-- The piece of a name without quotes. -/
def piece (n : PlainName) : Piece := Piece.ofWord n.text n.isWord

@[simp]
theorem kind_piece (n : PlainName) : n.piece.kind = .identifier false := by
  show wordKind n.text = _
  rw [wordKind, n.unreserved]

end PlainName

/-- A name, with or without quotes. -/
inductive Name where
  | plain (n : PlainName)
  | quoted (q : Quote) (content : List Char) (h : content ≠ [])

namespace Name

/-- The piece of a name. -/
def piece : Name → Piece
  | .plain n => n.piece
  | .quoted q content h => Piece.quoted q content h

/-- The text of a name as it is written between any quotes. -/
def text (n : Name) : String := String.ofList n.piece.body

/-- Whether a name is written in quotes. -/
def isQuoted : Name → Bool
  | .plain _ => false
  | .quoted .. => true

@[simp]
theorem kind_piece (n : Name) : n.piece.kind = .identifier n.isQuoted := by
  cases n with
  | plain n => exact n.kind_piece
  | quoted q content h => rfl

end Name

end TaggedSql
