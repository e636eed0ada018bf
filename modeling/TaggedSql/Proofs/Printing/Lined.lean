import TaggedSql.Proofs.Printing.Separated

/-!
# Texts made of lexemes

Where each lexeme of a text is known to be read before what follows it, so are all tokens of the text,
whatever fillers stand between them. Nothing is asked of the fillers: they may be missing where the
lexemes do not run together, as between a minus sign and digits. The kinds may depend on the policy,
and lexemes may be misspelled.

* `Lined`: a text made of lexemes, with any fillers before each;
* `Lined.exists_stream`: the tokens of such a source;
* `ReadsBefore.parted`: what is read at the end of a text is read before a blank character;
* `readsBefore_digits`, `readsBefore_hexadecimal`, `readsBefore_long_hexadecimal`: numerals at the end
  of a text.
-/

namespace TaggedSql

open Text Lexeme

/-- The kind and the text of the token that a lexeme becomes. -/
def Lexeme.bare (x : Lexeme) : Kind × String := (x.kind, String.ofList x.body)

/-- A text that is made of lexemes, with any fillers before each of them. -/
inductive Lined (policy : OverflowPolicy) : List Lexeme → List Char → Prop where
  | nil : Lined policy [] []
  | cons (lead : List Filler) {x : Lexeme} {xs : List Lexeme} {tail : List Char}
      (hx : x.ReadsBefore policy tail) (hxs : Lined policy xs tail) :
      Lined policy (x :: xs) (Filler.texts lead ++ (x.taken ++ tail))

namespace Lined

variable {policy : OverflowPolicy} {xs : List Lexeme} {text : List Char}

/-- The tokens of a text that is made of lexemes are those of the lexemes. -/
theorem exists_tokens (h : Lined policy xs text) (offset : Nat) :
    ∃ ts stop, (Lexer.mk policy offset text).tokens = ts ++ [Token.endAt stop] ∧
      ts.map Token.bare = xs.map Lexeme.bare := by
  induction h generalizing offset with
  | nil => exact ⟨[], offset, Lexer.tokens_empty policy offset, rfl⟩
  | @cons lead x xs tail hx _ ih =>
    have hnext := Lexer.next_lexeme hx offset lead
    have hopen : (Lexer.mk policy offset (Filler.texts lead ++ (x.taken ++ tail))).next.1.isEnd =
        false := by
      rw [hnext]
      refine beq_false_of_ne ?_
      obtain ⟨_, c, cs, _, _, hread⟩ := hx
      have hkind := Lexeme.kind_read_ne policy c cs
      rw [hread] at hkind
      exact hkind
    obtain ⟨ts, stop, htokens, hbare⟩ := ih (offset + width (Filler.texts lead) + width x.taken)
    refine ⟨Lexer.lexemeToken ⟨policy, offset, []⟩ (Filler.texts lead) x :: ts, stop, ?_, ?_⟩
    · rw [Lexer.tokens_of_not_end hopen, hnext, htokens]
      rfl
    · rw [List.map_cons, hbare]
      rfl

/-- The stream of a source that is made of lexemes. -/
theorem exists_stream (h : Lined policy xs text) :
    ∃ ts stop, Stream.ofSource policy (String.ofList text) = ⟨ts, stop⟩ ∧
      ts.map Token.bare = xs.map Lexeme.bare := by
  obtain ⟨ts, stop, htokens, hbare⟩ := h.exists_tokens 0
  have htokenize : tokenize policy (String.ofList text) = ts ++ [Token.endAt stop] := by
    show (Lexer.mk policy 0 (String.ofList text).toList).tokens = _
    rw [String.toList_ofList]
    exact htokens
  rw [tokenize_eq] at htokenize
  obtain ⟨hahead, hend⟩ := List.append_inj' htokenize rfl
  refine ⟨ts, stop, ?_, hbare⟩
  generalize Stream.ofSource policy (String.ofList text) = s at hahead hend
  cases s
  cases hahead
  cases hend
  rfl

end Lined

/-! ### Lexemes before what follows them -/

variable {policy : OverflowPolicy}

theorem Lexeme.Alone.readsBefore {x : Lexeme} (h : x.Alone) : x.ReadsBefore policy [] := by
  obtain ⟨c, cs, htaken, hgap, hread⟩ := h policy
  refine ⟨h.rest_eq_nil, c, cs, by rw [htaken, List.append_nil], hgap, ?_⟩
  rw [hread, extended, List.append_nil]

/-- What is read at the end of a text is read before a blank character, unless it is misspelled. -/
theorem Lexeme.ReadsBefore.parted {x : Lexeme} (h : x.ReadsBefore policy [])
    (hproper : x.kind.isProblem = false) {b : Char} (hb : isBlank b = true) (more : List Char) :
    x.ReadsBefore policy (b :: more) := by
  obtain ⟨hrest, c, cs, htaken, hgap, hread⟩ := h
  rw [List.append_nil] at htaken
  have hread' : Lexeme.read policy c cs = x := by
    rw [hread, extended, List.append_nil]
  refine ⟨hrest, c, cs ++ b :: more, by rw [htaken]; rfl, ?_, ?_⟩
  · exact Gap.read_of_isAbsent (Gap.isAbsent_append_blank hb (Gap.isAbsent_of_read hgap))
  · rw [Lexeme.read_append hb (by rw [hread']; exact hproper), hread']

/-- A minus sign is read before anything but another one. -/
theorem readsBefore_minus {c : Char} (hc : c ≠ '-') (cs : List Char) :
    (plain (.symbol .minus) ['-'] []).ReadsBefore policy (c :: cs) := by
  refine ⟨rfl, '-', c :: cs, rfl, Gap.read_of_isAbsent ?_, rfl⟩
  have hblank : isBlank '-' = false := by decide
  simp [Gap.isAbsent, hc, hblank]

/-- Decimal digits at the end of a text; the policy decides about the kind. -/
theorem readsBefore_digits {digits : List Char} (hfull : digits ≠ [])
    (hdigits : ∀ c ∈ digits, c.isDigit = true) :
    (plain (integerKind policy digits) digits []).ReadsBefore policy [] := by
  obtain ⟨c, cs, rfl⟩ := List.exists_cons_of_ne_nil hfull
  have hread := read_digits policy hdigits (.inl rfl)
  refine ⟨rfl, c, cs, by simp [taken, plain], gap_decimal (.inl (hdigits c List.mem_cons_self)), ?_⟩
  rw [List.append_nil] at hread
  exact hread

theorem readsBefore_hexadecimal (policy : OverflowPolicy) {mark : Char} (hmark : mark = 'x' ∨ mark = 'X')
    {digits : List Char} (hfull : digits ≠ []) (hhex : ∀ c ∈ digits, isHexDigit c = true)
    (hshort : digits.length ≤ 16) :
    (plain (.integer (Int64.ofNat (hexNumber digits))) ('0' :: mark :: digits) []).ReadsBefore
      policy [] := by
  refine ⟨rfl, '0', mark :: digits, by simp [taken, plain], gap_decimal (.inl (by decide)), ?_⟩
  exact read_hexadecimal policy hmark hfull hhex hshort

/-- More than sixteen hexadecimal digits are refused, also if the first ones are zeros. -/
theorem readsBefore_long_hexadecimal (policy : OverflowPolicy) {mark : Char} (hmark : mark = 'x' ∨ mark = 'X')
    {digits : List Char} (hhex : ∀ c ∈ digits, isHexDigit c = true) (hlong : 16 < digits.length) :
    (bad (.hexTooLarge digits) ('0' :: mark :: digits) []).ReadsBefore policy [] := by
  refine ⟨rfl, '0', mark :: digits, by simp [taken, bad, plain], gap_decimal (.inl (by decide)), ?_⟩
  have hread : Lexeme.read policy '0' (mark :: digits) = hexadecimal ['0', mark] digits := by
    rcases hmark with rfl | rfl <;> rfl
  have htake : digits.takeWhile isHexDigit = digits := List.takeWhile_eq_self_iff.2 hhex
  have hdrop : digits.dropWhile isHexDigit = [] := List.dropWhile_eq_nil_iff.2 hhex
  have hfull : digits ≠ [] := by
    rintro rfl
    simp at hlong
  rw [hread, hexadecimal, htake, hdrop]
  simp [hfull, hlong, extended, bad, plain]

/-! ### The word `SELECT` before a text -/

/-- The lexeme of the word `SELECT`. -/
def selectWord : Lexeme := plain (.word .SELECT) ['S', 'E', 'L', 'E', 'C', 'T'] []

theorem readsBefore_select (more : List Char) : selectWord.ReadsBefore policy (' ' :: more) := by
  have halone : selectWord.Alone :=
    (Spelling.reserved .SELECT ['S', 'E', 'L', 'E', 'C', 'T'] (by decide)).alone
  exact halone.readsBefore.parted rfl (by decide) more

/-- A blank character as a filler. -/
def Filler.space : Filler := .blank ' ' (by decide)

/-- A text of lexemes behind the word `SELECT` and a blank character. -/
theorem Lined.select {x : Lexeme} {xs : List Lexeme} {tail : List Char}
    (hx : x.ReadsBefore policy tail) (hxs : Lined policy xs tail) :
    Lined policy (selectWord :: x :: xs) ("SELECT ".toList ++ (x.taken ++ tail)) := by
  have hlined := Lined.cons [] (readsBefore_select (x.taken ++ tail)) (.cons [.space] hx hxs)
  exact hlined

end TaggedSql
