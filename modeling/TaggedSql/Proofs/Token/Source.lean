import Mathlib
import TaggedSql.Grammar.Stream

/-!
# The tokens of a source

The lexer keeps its place: the characters before it and the characters ahead always make up the
source. So the text of every token is what its span covers.

* `Lexeme.framed_read`: outside the span of a lexeme stand the delimiters of its kind;
* `Lexer.Placed`: a lexer at its place in a source;
* `slice_of_mem_tokenize`: the text of a token is the slice of the source that its span covers;
* `tokenize_eq`: the stream of a source holds all its tokens, the end token last.
-/

namespace TaggedSql

open Text

/-- The kind and the text of a token, without its place. -/
def Token.bare (t : Token) : Kind × String := (t.kind, t.text)

/-- Where the last of several tokens ends, behind a token that ends at `stop`. -/
def Token.lastStop : Nat → List Token → Nat
  | stop, [] => stop
  | _, t :: ts => lastStop t.span.stop ts

theorem Token.lastStop_concat (stop : Nat) (ts : List Token) (t : Token) :
    Token.lastStop stop (ts ++ [t]) = t.span.stop := by
  induction ts generalizing stop with
  | nil => rfl
  | cons u us ih => exact ih u.span.stop

/-- Whether a kind is that of a misspelled token. -/
def Kind.isProblem : Kind → Bool
  | .problem _ => true
  | _ => false

/-- Whether a kind is one that a numeral can have: that of a number or of a misspelled token. -/
def Kind.isNumeric : Kind → Bool
  | .integer _ | .leastMagnitude | .float _ | .problem _ => true
  | _ => false

/-- What a token of a kind leaves out of its span: the characters before it and those behind it.
The end of a source is read from no characters. -/
def Kind.delimiters : Kind → List (List Char × List Char)
  | .string => [(['\x27'], ['\x27'])]
  | .blob => [(['X', '\x27'], ['\x27']), (['x', '\x27'], ['\x27'])]
  | .identifier true => [(['\x22'], ['\x22']), (['\x60'], ['\x60'])]
  | .parameter true => [([':'], [])]
  | .endOfInput => []
  | _ => [([], [])]

/-- A number leaves nothing out. -/
theorem Kind.delimiters_of_isNumeric {k : Kind} (h : k.isNumeric = true) :
    k.delimiters = [([], [])] := by
  cases k with
  | integer _ | leastMagnitude | float _ | problem _ => rfl
  | _ => cases h

/-- Whether a token is misspelled. -/
def Token.isProblem (t : Token) : Bool := t.kind.isProblem

/-- The text that a span covers, for a source that is cut before and behind it. -/
theorem Span.slice_of_append {source : String} {start stop : Nat} (before text behind : List Char)
    (h : source.toList = before ++ (text ++ behind)) (hstart : start = width before)
    (hstop : stop = width before + width text) :
    (Span.mk start stop).slice source = String.ofList text := by
  subst hstart hstop
  show ((Text.slice? source.toList (width before) (width before + width text)).map
    String.ofList).getD "" = _
  rw [h, slice?_append]
  rfl

namespace Lexeme

/-! ### Lexemes and their delimiters -/

/-- What is read as a numeral: a number or a problem, with nothing outside its span. -/
structure IsNumeral (x : Lexeme) : Prop where
  opening : x.opening = []
  closing : x.closing = []
  kind : x.kind.isNumeric = true

theorem isNumeric_floatKind (text digits : List Char) (exponent : Int) :
    (floatKind text digits exponent).isNumeric = true := by
  unfold floatKind
  dsimp only
  split <;> rfl

theorem isNumeric_integerKind (policy : OverflowPolicy) (digits : List Char) :
    (integerKind policy digits).isNumeric = true := by
  unfold integerKind
  dsimp only
  split
  next => rfl
  split
  next => rfl
  cases policy with
  | promote => exact isNumeric_floatKind _ _ _
  | reject => rfl

theorem isNumeral_endNumeral {kind : Kind} (h : kind.isNumeric = true) (text cs : List Char) :
    (endNumeral kind text cs).IsNumeral := by
  unfold endNumeral badNumeral
  split
  next =>
    split
    next => exact ⟨rfl, rfl, rfl⟩
    next => exact ⟨rfl, rfl, h⟩
  next => exact ⟨rfl, rfl, h⟩

theorem isNumeral_behindFraction (policy : OverflowPolicy) (whole part cs : List Char) :
    (behindFraction policy whole part cs).IsNumeral := by
  unfold behindFraction
  split
  next =>
    dsimp only
    split
    next => exact ⟨rfl, rfl, rfl⟩
    next => exact isNumeral_endNumeral (isNumeric_floatKind _ _ _) _ _
  next =>
    split
    next => exact isNumeral_endNumeral (isNumeric_integerKind _ _) _ _
    next => exact isNumeral_endNumeral (isNumeric_floatKind _ _ _) _ _

theorem isNumeral_hexadecimal (mark cs : List Char) : (hexadecimal mark cs).IsNumeral := by
  unfold hexadecimal
  dsimp only
  split
  next => exact ⟨rfl, rfl, rfl⟩
  split <;> exact ⟨rfl, rfl, rfl⟩

theorem isNumeral_numeral (policy : OverflowPolicy) (cs : List Char) :
    (numeral policy cs).IsNumeral := by
  unfold numeral
  split
  next => exact isNumeral_hexadecimal _ _
  next => exact isNumeral_hexadecimal _ _
  next => exact isNumeral_behindFraction _ _ _ _

/-- The lexeme leaves out of its span what tokens of its kind leave out. -/
def Framed (x : Lexeme) : Prop := (x.opening, x.closing) ∈ x.kind.delimiters

theorem IsNumeral.framed {x : Lexeme} (h : x.IsNumeral) : x.Framed := by
  rw [Framed, h.opening, h.closing, Kind.delimiters_of_isNumeric h.kind]
  exact List.mem_singleton.2 rfl

theorem framed_word (cs : List Char) : (word cs).Framed := by
  unfold word
  dsimp only
  cases Word.ofText? (cs.takeWhile continuesWord) <;> exact List.mem_singleton.2 rfl

theorem framed_string (cs : List Char) : (string cs).Framed := by
  unfold string
  split <;> exact List.mem_singleton.2 rfl

theorem framed_quotedIdentifier {quote : Char} (h : quote = '\x22' ∨ quote = '\x60')
    (cs : List Char) : (quotedIdentifier quote cs).Framed := by
  unfold quotedIdentifier
  split
  next => exact List.mem_singleton.2 rfl
  next => rcases h with rfl | rfl <;> simp [Framed, Kind.delimiters]
  next => exact List.mem_singleton.2 rfl

theorem framed_blob {mark : Char} (h : mark = 'X' ∨ mark = 'x') (cs : List Char) :
    (blob mark cs).Framed := by
  unfold blob
  split
  next => exact List.mem_singleton.2 rfl
  split
  next =>
    dsimp only
    split
    next => rcases h with rfl | rfl <;> simp [Framed, Kind.delimiters]
    next => exact List.mem_singleton.2 rfl
  next => exact List.mem_singleton.2 rfl

theorem framed_sign (c : Char) (cs : List Char) : (sign c cs).Framed := by
  unfold sign
  split
  next => exact List.mem_singleton.2 rfl
  split <;> exact List.mem_singleton.2 rfl

/-- Outside the span of a lexeme stand the delimiters of its kind. -/
theorem framed_read (policy : OverflowPolicy) (c : Char) (cs : List Char) :
    (read policy c cs).Framed := by
  unfold read
  split
  next => exact framed_string cs
  split
  next h => exact framed_quotedIdentifier h cs
  split
  next h => exact framed_blob h.1 cs.tail
  split
  next => exact (isNumeral_numeral policy _).framed
  split
  next => exact framed_word _
  split
  next => exact List.mem_singleton.2 rfl
  next => exact framed_sign c cs

/-- No lexeme is the end of a source. -/
theorem kind_read_ne (policy : OverflowPolicy) (c : Char) (cs : List Char) :
    (read policy c cs).kind ≠ .endOfInput := by
  intro h
  have hframed := framed_read policy c cs
  rw [Framed, h] at hframed
  cases hframed

end Lexeme

namespace Lexer

theorem tokens_of_end {l : Lexer} (h : l.next.1.isEnd = true) : l.tokens = [l.next.1] := by
  rw [Lexer.tokens, dif_pos h]

theorem tokens_of_not_end {l : Lexer} (h : l.next.1.isEnd = false) :
    l.tokens = l.next.1 :: l.next.2.tokens := by
  rw [Lexer.tokens, dif_neg (by simp [h])]

/-- What holds at the end of a source, and before a token if it holds behind it, holds everywhere. -/
theorem tokens_induction {P : Lexer → Prop} (hend : ∀ l, l.next.1.isEnd = true → P l)
    (hnext : ∀ l, l.next.1.isEnd = false → P l.next.2 → P l) (l : Lexer) : P l := by
  induction hlength : l.rest.length using Nat.strongRecOn generalizing l with
  | ind n ih =>
    cases hl : l.next.1.isEnd with
    | true => exact hend l hl
    | false => exact hnext l hl (ih _ (hlength ▸ next_rest_length_lt hl) _ rfl)

theorem policy_next (l : Lexer) : l.next.2.policy = l.policy := by
  unfold next
  split <;> rfl

/-- The end token is read where nothing but a gap is left. -/
theorem gap_of_isEnd {l : Lexer} (h : l.next.1.isEnd = true) :
    ∃ skipped, Gap.read l.rest = .closed skipped [] := by
  cases hread : Gap.read l.rest with
  | unclosed skipped comment =>
    rw [next_of_unclosed hread] at h
    cases h
  | closed skipped rest =>
    cases rest with
    | nil => exact ⟨skipped, rfl⟩
    | cons c cs =>
      rw [next_of_lexeme hread] at h
      exact absurd (eq_of_beq h) (Lexeme.kind_read_ne l.policy c cs)

/-- The tokens of a source are none of them the end, and then the end. -/
theorem exists_tokens_eq (l : Lexer) :
    ∃ ts stop, l.tokens = ts ++ [Token.endAt stop] ∧ ∀ t ∈ ts, t.isEnd = false := by
  induction l using tokens_induction with
  | hend l h =>
    obtain ⟨skipped, hgap⟩ := gap_of_isEnd h
    refine ⟨[], l.position + width skipped, ?_, fun _ h => nomatch h⟩
    rw [tokens_of_end h, next_of_end hgap]
    rfl
  | hnext l h ih =>
    obtain ⟨ts, stop, htokens, hts⟩ := ih
    refine ⟨l.next.1 :: ts, stop, ?_, List.forall_mem_cons.2 ⟨h, hts⟩⟩
    rw [tokens_of_not_end h, htokens]
    rfl

/-! ### The place of a lexer -/

/-- A lexer at its place in a source: the characters before it and those ahead make up the source. -/
def Placed (source : String) (l : Lexer) : Prop :=
  ∃ before, source.toList = before ++ l.rest ∧ l.position = width before

theorem placed_start (policy : OverflowPolicy) (source : String) :
    (start policy source).Placed source := ⟨[], rfl, rfl⟩

/-- Reading a token keeps the place, and the span of the token covers its text. -/
theorem Placed.next {source : String} {l : Lexer} (h : l.Placed source) :
    l.next.2.Placed source ∧ l.next.1.span.slice source = l.next.1.text := by
  obtain ⟨before, hsource, hposition⟩ := h
  have hall := Gap.all_read l.rest
  cases hread : Gap.read l.rest with
  | unclosed skipped comment =>
    rw [hread] at hall
    rw [next_of_unclosed hread]
    have hcut : source.toList = (before ++ skipped) ++ (comment ++ []) := by
      rw [hsource, ← hall]
      simp [Gap.all]
    refine ⟨⟨before ++ skipped ++ comment, ?_, ?_⟩, ?_⟩
    · simpa using hcut
    · simp [commentToken, hposition, Nat.add_assoc]
    · exact Span.slice_of_append _ _ _ hcut (by simp [hposition])
        (by simp [hposition, Nat.add_assoc])
  | closed skipped rest =>
    rw [hread] at hall
    cases rest with
    | nil =>
      rw [next_of_end hread]
      have hcut : source.toList = (before ++ skipped) ++ ([] ++ []) := by
        rw [hsource, ← hall]
        simp [Gap.all]
      refine ⟨⟨before ++ skipped, ?_, ?_⟩, ?_⟩
      · simpa using hcut
      · simp [hposition]
      · exact Span.slice_of_append _ _ _ hcut (by simp [hposition]) (by simp [hposition])
    | cons c cs =>
      rw [next_of_lexeme hread]
      have htaken := (Lexeme.read_reads l.policy c cs).taken_append_rest
      generalize Lexeme.read l.policy c cs = x at htaken ⊢
      have hcut : source.toList =
          (before ++ skipped ++ x.opening) ++ (x.body ++ (x.closing ++ x.rest)) := by
        rw [hsource, ← hall, Gap.all, ← htaken, Lexeme.taken]
        simp
      refine ⟨⟨before ++ skipped ++ x.opening ++ x.body ++ x.closing, ?_, ?_⟩, ?_⟩
      · simpa using hcut
      · simp [lexemeToken, hposition, Nat.add_assoc]
      · exact Span.slice_of_append _ _ _ hcut (by simp [hposition, Nat.add_assoc])
          (by simp [hposition, Nat.add_assoc])

/-- The text of every token is what its span covers. -/
theorem Placed.slice_of_mem {source : String} {l : Lexer} (h : l.Placed source) {t : Token}
    (ht : t ∈ l.tokens) : t.span.slice source = t.text := by
  induction l using tokens_induction with
  | hend l hend =>
    rw [tokens_of_end hend, List.mem_singleton] at ht
    rw [ht]
    exact h.next.2
  | hnext l hend ih =>
    rw [tokens_of_not_end hend] at ht
    rcases List.mem_cons.1 ht with rfl | ht
    · exact h.next.2
    · exact ih h.next.1 ht

end Lexer

variable {policy : OverflowPolicy} {source : String}

theorem slice_of_mem_tokenize {t : Token} (h : t ∈ tokenize policy source) :
    t.span.slice source = t.text := (Lexer.placed_start policy source).slice_of_mem h

/-- The stream of a source holds all its tokens; behind them the end token stands. -/
theorem tokenize_eq (policy : OverflowPolicy) (source : String) :
    tokenize policy source = (Stream.ofSource policy source).ahead ++
      [Token.endAt (Stream.ofSource policy source).stop] := by
  obtain ⟨ts, stop, htokens, hopen⟩ := (Lexer.start policy source).exists_tokens_eq
  have hstream : Stream.ofSource policy source = ⟨ts, stop⟩ := by
    have htakeWhile : ∀ t ∈ ts, (!t.isEnd) = true := fun t ht => by rw [hopen t ht]; rfl
    have hfind : ts.find? Token.isEnd = none := List.find?_eq_none.2 fun t ht => by simp [hopen t ht]
    rw [Stream.ofSource, tokenize, htokens, Stream.ofTokens, List.takeWhile_append_of_pos htakeWhile,
      List.find?_append, hfind]
    simp [Token.isEnd, Token.endAt]
  rw [hstream]
  exact htokens

/-- The end token stands nowhere else. -/
theorem isEnd_of_mem_ahead {t : Token} (h : t ∈ (Stream.ofSource policy source).ahead) :
    t.isEnd = false := by
  simpa using List.mem_takeWhile_imp h

theorem map_slice_tokenize (policy : OverflowPolicy) (source : String) :
    ((tokenize policy source).map fun t => (t.kind, t.span.slice source)) =
      (tokenize policy source).map Token.bare :=
  List.map_congr_left fun t ht => by rw [slice_of_mem_tokenize ht, Token.bare]

end TaggedSql
