import TaggedSql.Proofs.Printing.Numeral
import TaggedSql.Proofs.Token.Locality

/-!
# Spellings between separators

Every token that is spelled correctly has one or more spellings: a reserved word in any mix of cases,
a number with leading zeros, `!=` beside `<>`. Spellings that are joined by separators, each of which
begins with a blank character and goes on with any fillers, are read back one by one.

* `Spelling`: the spellings of all tokens, `Spelling.lexeme`: what each spells;
* `Lexeme.ReadsBefore`: a lexeme that is read from its own characters before some text;
* `Lexeme.Alone`: a lexeme that is read from its own characters, with nothing behind them;
* `Spelling.alone`: every spelling is read as what it spells;
* `Lexer.tokens_joined`, `tokenize_joined`: the tokens of joined spellings.
-/

namespace TaggedSql

open Text Lexeme

/-! ### Spellings -/

/-- A spelling of a token. -/
inductive Spelling where
  /-- A reserved word in any mix of upper and lower case. -/
  | reserved (w : Word) (text : List Char) (spells : text.map Char.toUpper = w.spelling.toList)
  /-- A word that is no reserved word in any mix of cases. -/
  | name (text : List Char) (word : isWord text = true)
      (free : ∀ w : Word, text.map Char.toUpper ≠ w.spelling.toList)
  | quoted (q : Quote) (content : List Char) (full : content ≠ [])
  | string (content : List Char)
  | blob (mark : Char) (marks : mark = 'X' ∨ mark = 'x') (digits : List Char)
      (hex : ∀ d ∈ digits, isHexDigit d = true) (even : digits.length % 2 = 0)
  /-- Decimal digits, with any number of leading zeros. -/
  | decimal (digits : List Char) (full : digits ≠ []) (decimal : ∀ d ∈ digits, d.isDigit = true)
      (bounded : decimalNumber digits ≤ 2 ^ 63)
  | hexadecimal (mark : Char) (marks : mark = 'x' ∨ mark = 'X') (digits : List Char)
      (full : digits ≠ []) (hex : ∀ d ∈ digits, isHexDigit d = true) (short : digits.length ≤ 16)
  | float (l : FloatLiteral)
  | unnamed
  /-- A colon and a word, which may be reserved. -/
  | named (label : List Char) (word : isWord label = true)
  | symbol (text : List Char) (s : Symbol) (spells : (text, s) ∈ Symbol.spellings)

namespace Spelling

/-- What a spelling spells: the kind of the token, and which of the characters its span covers. -/
def lexeme : Spelling → Lexeme
  | reserved w text _ => plain (.word w) text []
  | name text _ _ => plain (.identifier false) text []
  | quoted q content _ => ⟨.identifier true, [q.char], double q.char content, [q.char], []⟩
  | string content => ⟨.string, ['\x27'], double '\x27' content, ['\x27'], []⟩
  | blob mark _ digits _ _ => ⟨.blob, [mark, '\x27'], digits, ['\x27'], []⟩
  | decimal digits _ _ _ =>
    if decimalNumber digits < 2 ^ 63 then
      plain (.integer (Int64.ofNat (decimalNumber digits))) digits []
    else plain .leastMagnitude digits []
  | hexadecimal mark _ digits _ _ _ =>
    plain (.integer (Int64.ofNat (hexNumber digits))) ('0' :: mark :: digits) []
  | float l => plain (.float l.value) l.text []
  | unnamed => plain (.parameter false) ['?'] []
  | named label _ => ⟨.parameter true, [':'], label, [], []⟩
  | symbol text s _ => plain (.symbol s) text []

/-- All characters of a spelling. -/
def text (x : Spelling) : List Char := x.lexeme.taken

end Spelling

/-! ### Lexemes alone in a text -/

namespace Gap

/-- Where no gap is passed, none begins. -/
theorem isAbsent_of_read {c : Char} {cs : List Char} (h : read (c :: cs) = .closed [] (c :: cs)) :
    isAbsent c cs = true := by
  have hafter : ∀ (front : List Char) (g : Gap), after (c :: front) g ≠ .closed [] (c :: cs) := by
    intro front g heq
    cases g <;> simp [after] at heq
  rw [read] at h
  split at h
  next => exact absurd h (hafter _ _)
  next hblank =>
    split at h
    next => exact absurd h (hafter _ _)
    next hline =>
      split at h
      next hblock =>
        split at h
        next => cases h
        next => exact absurd h (hafter _ _)
      next hblock =>
        simp only [isAbsent, Bool.and_eq_true, Bool.not_eq_true', Bool.and_eq_false_imp, beq_iff_eq,
          beq_eq_false_iff_ne]
        exact ⟨⟨by simpa using hblank, fun hc hhead => hline ⟨hc, hhead⟩⟩,
          fun hc hhead => hblock ⟨hc, hhead⟩⟩

/-- A blank character behind a text begins no gap before it. -/
theorem isAbsent_append_blank {b c : Char} {cs more : List Char} (hb : isBlank b = true)
    (h : isAbsent c cs = true) : isAbsent c (cs ++ b :: more) = true := by
  cases cs with
  | cons d ds => exact h
  | nil =>
    have hline : b ≠ '-' := ne_of_isBlank hb (by decide)
    have hblock : b ≠ '*' := ne_of_isBlank hb (by decide)
    simp only [isAbsent, Bool.and_eq_true] at h
    simp [isAbsent, h.1.1, hline, hblock]

end Gap

/-- What follows a spelling: nothing, or a text that begins with a blank character. -/
def Text.Parted (cs : List Char) : Prop := cs = [] ∨ ∃ b more, isBlank b = true ∧ cs = b :: more

namespace Lexeme

/-- The lexeme is read from its own characters before a tail, and no gap is passed. -/
structure ReadsBefore (policy : OverflowPolicy) (x : Lexeme) (tail : List Char) : Prop where
  rest : x.rest = []
  read : ∃ c cs, x.taken ++ tail = c :: cs ∧ Gap.read (c :: cs) = .closed [] (c :: cs) ∧
    read policy c cs = x.extended tail

/-- The lexeme is read from its own characters under either policy, and no gap is passed before. -/
def Alone (x : Lexeme) : Prop :=
  ∀ policy : OverflowPolicy, ∃ c cs, x.taken = c :: cs ∧
    Gap.read (c :: cs) = .closed [] (c :: cs) ∧ read policy c cs = x

/-- A lexeme leaves none of its own characters. -/
theorem Alone.rest_eq_nil {x : Lexeme} (h : x.Alone) : x.rest = [] := by
  obtain ⟨c, cs, htaken, _, hread⟩ := h .reject
  have hrest := (read_reads .reject c cs).taken_append_rest
  rw [hread, htaken] at hrest
  simpa using hrest

/-- A lexeme that is read from its own characters is read before a blank character too. -/
theorem Alone.read_append {x : Lexeme} (h : x.Alone) (hproper : x.kind.isProblem = false)
    (policy : OverflowPolicy) {tail : List Char} (htail : Parted tail) :
    ∃ c cs, x.taken ++ tail = c :: cs ∧ Gap.read (c :: cs) = .closed [] (c :: cs) ∧
      read policy c cs = x.extended tail := by
  obtain ⟨c, cs, htaken, hgap, hread⟩ := h policy
  refine ⟨c, cs ++ tail, by rw [htaken]; rfl, ?_, ?_⟩
  · rcases htail with rfl | ⟨b, more, hb, rfl⟩
    · rwa [List.append_nil]
    · exact Gap.read_of_isAbsent (Gap.isAbsent_append_blank hb (Gap.isAbsent_of_read hgap))
  · rcases htail with rfl | ⟨b, more, hb, rfl⟩
    · rw [List.append_nil, hread]
      simp [extended]
    · rw [Lexeme.read_append hb (by rw [hread]; exact hproper), hread]

end Lexeme

/-- A piece is read from its own characters. -/
theorem Piece.alone (p : Piece) : Lexeme.Alone ⟨p.kind, p.opening, p.body, p.closing, []⟩ := by
  intro policy
  obtain ⟨c, cs, htext, hgap, hread⟩ := p.reads policy [] (.inl rfl)
  refine ⟨c, cs, ?_, hgap, hread⟩
  rw [← htext]
  simp [Lexeme.taken]

/-! ### Reserved words in lower case -/

/-- A letter in lower case begins and continues a word. -/
theorem startsWord_of_isLower {c : Char} (h : c.isLower = true) : startsWord c = true := by
  have hall : ∀ n < 123, 97 ≤ n → Interval.covers alphabeticIntervals n = true := by decide
  have halpha : isAlphabetic c = true := by
    simp only [Char.isLower, Bool.and_eq_true, decide_eq_true_eq] at h
    obtain ⟨hlow, hhigh⟩ := h
    have hlow' : 97 ≤ c.toNat := UInt32.le_iff_toNat_le.1 hlow
    have hhigh' : c.toNat ≤ 122 := UInt32.le_iff_toNat_le.1 hhigh
    exact hall c.toNat (by omega) hlow'
  rw [startsWord, halpha, Bool.true_or]

/-- Every character is its own capital, or a letter in lower case. -/
theorem toUpper_eq_or_isLower (c : Char) : c.toUpper = c ∨ c.isLower = true := by
  unfold Char.toUpper
  split
  next h =>
    right
    simpa [Char.isLower] using h
  next => exact .inl rfl

theorem startsWord_of_toUpper {c : Char} (h : startsWord c.toUpper = true) :
    startsWord c = true := by
  rcases toUpper_eq_or_isLower c with hc | hc
  · rwa [hc] at h
  · exact startsWord_of_isLower hc

theorem continuesWord_of_toUpper {c : Char} (h : continuesWord c.toUpper = true) :
    continuesWord c = true := by
  rcases toUpper_eq_or_isLower c with hc | hc
  · rwa [hc] at h
  · exact continuesWord_of_startsWord (startsWord_of_isLower hc)

/-- A text whose capitals are a word is a word. -/
theorem isWord_of_toUpper {cs : List Char} (h : isWord (cs.map Char.toUpper) = true) :
    isWord cs = true := by
  cases cs with
  | nil => cases h
  | cons c cs =>
    obtain ⟨hstart, hrest⟩ := isWord_cons h
    rw [isWord, Bool.and_eq_true, List.all_eq_true]
    refine ⟨startsWord_of_toUpper hstart, fun d hd => ?_⟩
    exact continuesWord_of_toUpper (hrest d.toUpper (List.mem_map_of_mem hd))

/-- A reserved word is recognised in any mix of cases. -/
theorem wordKind_of_toUpper {w : Word} {text : List Char}
    (h : text.map Char.toUpper = w.spelling.toList) : wordKind text = .word w := by
  have hidem : w.spelling.toList.map Char.toUpper = w.spelling.toList := by
    rw [← h, List.map_map]
    refine List.map_congr_left fun c _ => ?_
    exact Char.toUpper_toUpper_eq_toUpper c
  have hfound : Word.ofText? text = Word.ofText? w.spelling.toList := by
    rw [Word.ofText?, Word.ofText?, h, hidem]
  rw [wordKind, hfound, Word.ofText?_spelling]

/-- A word that no reserved word matches in any mix of cases is a name. -/
theorem wordKind_of_free {text : List Char}
    (h : ∀ w : Word, text.map Char.toUpper ≠ w.spelling.toList) :
    wordKind text = .identifier false := by
  have hnone : Word.ofText? text = none := by
    refine List.find?_eq_none.2 fun w _ heq => ?_
    exact h w (eq_of_beq heq).symm
  rw [wordKind, hnone]

/-! ### Every spelling is read -/

/-- Up to sixteen hexadecimal digits behind their mark are read as a number. -/
theorem read_hexadecimal (policy : OverflowPolicy) {mark : Char} (hmark : mark = 'x' ∨ mark = 'X')
    {digits : List Char} (hfull : digits ≠ []) (hhex : ∀ d ∈ digits, isHexDigit d = true)
    (hshort : digits.length ≤ 16) :
    Lexeme.read policy '0' (mark :: digits) =
      plain (.integer (Int64.ofNat (hexNumber digits))) ('0' :: mark :: digits) [] := by
  have hread : Lexeme.read policy '0' (mark :: digits) = hexadecimal ['0', mark] digits := by
    rcases hmark with rfl | rfl <;> rfl
  have htake : digits.takeWhile isHexDigit = digits := List.takeWhile_eq_self_iff.2 hhex
  have hdrop : digits.dropWhile isHexDigit = [] := List.dropWhile_eq_nil_iff.2 hhex
  rw [hread, hexadecimal, htake, hdrop]
  simp [hfull, Nat.not_lt.2 hshort]

/-- Every spelling of a symbol is read as the symbol. -/
theorem alone_symbol {text : List Char} {s : Symbol} (h : (text, s) ∈ Symbol.spellings) :
    (plain (.symbol s) text []).Alone := by
  simp only [Symbol.spellings, List.mem_cons, List.not_mem_nil, or_false, Prod.mk.injEq] at h
  intro policy
  rcases h with h | h | h | h | h | h | h | h | h | h | h | h | h | h | h | h | h | h | h | h | h |
      h | h | h <;>
    (obtain ⟨rfl, rfl⟩ := h
     exact ⟨_, _, rfl, Gap.read_of_isAbsent rfl, rfl⟩)

namespace Spelling

/-- Every spelling is read as what it spells. -/
theorem alone (x : Spelling) : x.lexeme.Alone := by
  cases x with
  | reserved w text spells =>
    have hword : isWord text = true := isWord_of_toUpper (spells ▸ Piece.isWord_spelling w)
    have halone := (Piece.ofWord text hword).alone
    rwa [show (Piece.ofWord text hword).kind = .word w from wordKind_of_toUpper spells] at halone
  | name text word free =>
    have halone := (Piece.ofWord text word).alone
    rwa [show (Piece.ofWord text word).kind = .identifier false from wordKind_of_free free]
      at halone
  | quoted q content full => exact (Piece.quoted q content full).alone
  | string content => exact (Piece.string content).alone
  | blob mark marks digits hex even =>
    intro policy
    refine ⟨mark, '\x27' :: (digits ++ '\x27' :: []), by simp [lexeme, taken], ?_,
      Piece.read_blob policy marks hex even []⟩
    rcases marks with rfl | rfl <;> exact Gap.read_of_isAbsent rfl
  | decimal digits full decimal bounded =>
    intro policy
    obtain ⟨c, cs, rfl⟩ := List.exists_cons_of_ne_nil full
    have hread := read_digits policy decimal (.inl rfl)
    have hkind : plain (integerKind policy (c :: cs)) (c :: cs) [] =
        lexeme (.decimal (c :: cs) full decimal bounded) := by
      unfold integerKind lexeme
      simp only [Nat.pow_eq]
      by_cases hsmall : decimalNumber (c :: cs) < 2 ^ 63
      · rw [if_pos hsmall, if_pos hsmall]
      · rw [if_neg hsmall, if_neg hsmall, if_pos (by omega)]
    rw [List.append_nil, hkind] at hread
    refine ⟨c, cs, ?_, gap_decimal (.inl (decimal c List.mem_cons_self)), hread⟩
    rw [← hkind]
    simp [taken, plain]
  | hexadecimal mark marks digits full hex short =>
    intro policy
    exact ⟨'0', mark :: digits, by simp [lexeme, taken, plain], gap_decimal (.inl (by decide)),
      read_hexadecimal policy marks full hex short⟩
  | float l => exact (Piece.float l).alone
  | unnamed => exact Piece.unnamed.alone
  | named label word => exact (Piece.named label word).alone
  | symbol text s spells => exact alone_symbol spells

/-- A spelling spells neither the end of a source nor a misspelled token. -/
theorem kind_lexeme (x : Spelling) :
    x.lexeme.kind ≠ .endOfInput ∧ x.lexeme.kind.isProblem = false := by
  cases x with
  | decimal digits full decimal bounded =>
    by_cases hsmall : decimalNumber digits < 2 ^ 63
    · rw [lexeme, if_pos hsmall]
      exact ⟨Kind.noConfusion, rfl⟩
    · rw [lexeme, if_neg hsmall]
      exact ⟨Kind.noConfusion, rfl⟩
  | _ => exact ⟨Kind.noConfusion, rfl⟩

end Spelling

/-! ### Joined spellings -/

/-- What may stand between two spellings: a blank character and any fillers. -/
structure Separator where
  first : Char
  isBlank : Text.isBlank first = true
  more : List Filler

/-- The fillers of a separator. -/
def Separator.fillers (s : Separator) : List Filler := .blank s.first s.isBlank :: s.more

namespace Spelling

/-- The text of spellings behind some fillers, with separators between neighbours. -/
def joined (lead : List Filler) (separators : Nat → Separator) : List Spelling → List Char
  | [] => []
  | x :: xs => Filler.texts lead ++
    (x.text ++ joined (separators 0).fillers (fun n => separators (n + 1)) xs)

/-- The token of a spelling that begins at an offset. -/
def tokenAt (x : Spelling) (offset : Nat) : Token :=
  let start := offset + width x.lexeme.opening
  ⟨x.lexeme.kind, ⟨start, start + width x.lexeme.body⟩, String.ofList x.lexeme.body⟩

/-- The tokens of joined spellings that stand behind a text of some width. -/
def layout (offset : Nat) (lead : List Filler) (separators : Nat → Separator) :
    List Spelling → List Token
  | [] => []
  | x :: xs =>
    let start := offset + width (Filler.texts lead)
    x.tokenAt start ::
      layout (start + width x.text) (separators 0).fillers (fun n => separators (n + 1)) xs

/-- Behind a spelling nothing follows, or a separator. -/
theorem parted_joined (s : Separator) (separators : Nat → Separator) (xs : List Spelling) :
    Parted (joined s.fillers separators xs) := by
  cases xs with
  | nil => exact .inl rfl
  | cons x xs => exact .inr ⟨s.first, _, s.isBlank, rfl⟩

theorem isEnd_tokenAt (x : Spelling) (offset : Nat) : (x.tokenAt offset).isEnd = false :=
  beq_false_of_ne x.kind_lexeme.1

end Spelling

namespace Lexer

/-- The next token behind any fillers is that of the lexeme there. -/
theorem next_lexeme {policy : OverflowPolicy} {x : Lexeme} {tail : List Char}
    (h : x.ReadsBefore policy tail) (offset : Nat) (lead : List Filler) :
    (Lexer.mk policy offset (Filler.texts lead ++ (x.taken ++ tail))).next =
      (lexemeToken ⟨policy, offset, []⟩ (Filler.texts lead) x,
        ⟨policy, offset + width (Filler.texts lead) + width x.taken, tail⟩) := by
  obtain ⟨hrest, c, cs, htext, hgap, hread⟩ := h
  have hclosed : Gap.read (Filler.texts lead ++ (x.taken ++ tail)) =
      .closed (Filler.texts lead) (c :: cs) := by
    rw [Gap.read_fillers, htext, hgap, Gap.after, List.append_nil]
  rw [next_of_lexeme hclosed]
  show (lexemeToken _ (Filler.texts lead) (Lexeme.read policy c cs), _) = _
  rw [hread]
  simp only [lexemeToken, Lexeme.taken, Lexeme.extended, width_append, hrest, List.nil_append,
    Prod.mk.injEq, Lexer.mk.injEq, true_and, and_true]
  omega

/-- The next token behind any fillers is that of the spelling there. -/
theorem next_spelling (policy : OverflowPolicy) (offset : Nat) (lead : List Filler) (x : Spelling)
    {tail : List Char} (htail : Parted tail) :
    (Lexer.mk policy offset (Filler.texts lead ++ (x.text ++ tail))).next =
      (x.tokenAt (offset + width (Filler.texts lead)),
        ⟨policy, offset + width (Filler.texts lead) + width x.text, tail⟩) := by
  have hbefore : x.lexeme.ReadsBefore policy tail :=
    ⟨x.alone.rest_eq_nil, x.alone.read_append x.kind_lexeme.2 policy htail⟩
  exact next_lexeme hbefore offset lead

/-- The tokens of joined spellings, read one by one. -/
theorem tokens_joined (policy : OverflowPolicy) (xs : List Spelling) (offset : Nat)
    (lead : List Filler) (separators : Nat → Separator) :
    (Lexer.mk policy offset (Spelling.joined lead separators xs)).tokens =
      Spelling.layout offset lead separators xs ++
        [Token.endAt (offset + width (Spelling.joined lead separators xs))] := by
  induction xs generalizing offset lead separators with
  | nil => exact tokens_empty policy offset
  | cons x xs ih =>
    have hnext := next_spelling policy offset lead x
      (Spelling.parted_joined (separators 0) (fun n => separators (n + 1)) xs)
    rw [Spelling.joined, tokens_of_not_end (by rw [hnext]; exact x.isEnd_tokenAt _), hnext, ih,
      Spelling.layout]
    simp only [List.cons_append, width_append, Nat.add_assoc]

end Lexer

/-- Spellings that are joined by separators are read back as the tokens that they spell, each at its
place, under either policy. -/
theorem tokenize_joined (policy : OverflowPolicy) (separators : Nat → Separator)
    (xs : List Spelling) :
    tokenize policy (String.ofList (Spelling.joined [] separators xs)) =
      Spelling.layout 0 [] separators xs ++
        [Token.endAt (width (Spelling.joined [] separators xs))] := by
  have htokens := Lexer.tokens_joined policy xs 0 [] separators
  rw [Nat.zero_add] at htokens
  show (Lexer.mk policy 0 (String.ofList (Spelling.joined [] separators xs)).toList).tokens = _
  rw [String.toList_ofList]
  exact htokens

end TaggedSql
