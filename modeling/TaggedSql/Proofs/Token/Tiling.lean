import TaggedSql.Proofs.Token.Filler
import TaggedSql.Proofs.Token.Source

/-!
# Tokens tile their source

The tokens of a source divide it into gaps, the delimiters that tokens leave out of their spans, and
the spans themselves. Nothing is left over: the characters between two neighbouring spans are the
closing delimiter of the earlier token, a gap, and the opening delimiter of the later one.

* `Tiled`: tokens that divide a text from an offset on, the end token last;
* `Lexer.tiled_tokens`: the tokens of a lexer divide what it has to read;
* `Tiled.within`, `Tiled.chain`: what this says about each span, and about neighbouring spans;
* `tokenize_tiles`: all of it for the tokens of a source, and how a single step of the lexer moves.
-/

namespace TaggedSql

open Text

/-- The tokens divide the characters from an offset on: before each token stand a gap and its opening
delimiter, behind it its closing delimiter, and the end token stands behind the last gap. -/
inductive Tiled : Nat → List Char → List Token → Prop where
  | last {offset : Nat} {gap : List Char} (filled : Gap.FilledToEnd gap) :
      Tiled offset gap [Token.endAt (offset + width gap)]
  | cons {offset : Nat} {gap opening closing rest : List Char} {t : Token} {ts : List Token}
      (filled : Gap.Filled gap) (delimited : (opening, closing) ∈ t.kind.delimiters)
      (taken : opening ++ (t.text.toList ++ closing) ≠ [])
      (start : t.span.start = offset + width (gap ++ opening))
      (stop : t.span.stop = t.span.start + width t.text.toList)
      (tiled : Tiled (t.span.stop + width closing) rest ts) :
      Tiled offset (gap ++ (opening ++ (t.text.toList ++ (closing ++ rest)))) (t :: ts)

/-! ### Single steps -/

namespace Lexer

/-- Behind the end token stands the end token. -/
theorem next_next_of_end {l : Lexer} (h : l.next.1.isEnd = true) : l.next.2.next = l.next := by
  obtain ⟨skipped, hgap⟩ := gap_of_isEnd h
  have hnil : Gap.read l.next.2.rest = .closed [] [] := by
    rw [next_of_end hgap, Gap.read]
  rw [next_of_end hnil, next_of_end hgap]
  rfl

/-- However often it is read, the end token stays where it is. -/
theorem iterate_next_of_end {l : Lexer} (h : l.next.1.isEnd = true) (n : Nat) :
    (fun read : Token × Lexer => read.2.next)^[n] l.next = l.next :=
  Function.iterate_fixed (next_next_of_end h) n

/-- The parts of a step that does not reach the end: what it passes, and the token it reads. -/
theorem exists_step {l : Lexer} (h : l.next.1.isEnd = false) :
    ∃ gap opening closing, Gap.Filled gap ∧ (opening, closing) ∈ l.next.1.kind.delimiters ∧
      opening ++ (l.next.1.text.toList ++ closing) ≠ [] ∧
      l.rest = gap ++ (opening ++ (l.next.1.text.toList ++ (closing ++ l.next.2.rest))) ∧
      l.next.1.span.start = l.position + width (gap ++ opening) ∧
      l.next.1.span.stop = l.next.1.span.start + width l.next.1.text.toList ∧
      l.next.2.position = l.next.1.span.stop + width closing := by
  have hall := Gap.all_read l.rest
  have hfilled := Gap.isFilled_read l.rest
  cases hread : Gap.read l.rest with
  | unclosed skipped comment =>
    have hne := Gap.comment_ne_nil hread
    rw [hread] at hall hfilled
    rw [next_of_unclosed hread]
    refine ⟨skipped, [], [], hfilled, List.mem_singleton.2 rfl, ?_, ?_, ?_, ?_, ?_⟩
    · simpa [commentToken] using hne
    · rw [← hall]
      simp [commentToken, Gap.all]
    · simp [commentToken]
    · simp [commentToken]
    · rfl
  | closed skipped rest =>
    rw [hread] at hall hfilled
    cases rest with
    | nil =>
      rw [next_of_end hread] at h
      cases h
    | cons c cs =>
      have hreads := Lexeme.read_reads l.policy c cs
      rw [next_of_lexeme hread]
      refine ⟨skipped, (Lexeme.read l.policy c cs).opening, (Lexeme.read l.policy c cs).closing,
        hfilled, Lexeme.framed_read l.policy c cs, ?_, ?_, ?_, ?_, ?_⟩
      · simpa [lexemeToken, Lexeme.taken] using hreads.taken_ne_nil
      · rw [← hall, Gap.all, ← hreads.taken_append_rest]
        simp [lexemeToken, Lexeme.taken]
      · simp [lexemeToken, Nat.add_assoc]
      · simp [lexemeToken]
      · rfl

theorem width_pos {cs : List Char} (h : cs ≠ []) : 0 < width cs := by
  cases cs with
  | nil => exact absurd rfl h
  | cons c cs =>
    have := c.utf8Size_pos
    rw [width_cons]
    omega

/-- Every token but the end moves the lexer forward, a misspelled one too. -/
theorem position_lt_next {l : Lexer} (h : l.next.1.isEnd = false) :
    l.position < l.next.2.position := by
  obtain ⟨gap, opening, closing, _, _, htaken, _, hstart, hstop, hposition⟩ := exists_step h
  have hpos := width_pos htaken
  rw [width_append, width_append] at hpos
  rw [hposition, hstop, hstart, width_append]
  omega

/-- The tokens of a lexer divide what it has to read. -/
theorem tiled_tokens (l : Lexer) : Tiled l.position l.rest l.tokens := by
  induction l using tokens_induction with
  | hend l h =>
    obtain ⟨skipped, hgap⟩ := gap_of_isEnd h
    have hall := Gap.all_read l.rest
    have hfilled := Gap.isFilled_read l.rest
    rw [hgap] at hfilled hall
    rw [Gap.all, List.append_nil] at hall
    rw [tokens_of_end h, next_of_end hgap, ← hall]
    exact .last hfilled
  | hnext l h ih =>
    obtain ⟨gap, opening, closing, hfilled, hdelimited, htaken, hrest, hstart, hstop, hposition⟩ :=
      exists_step h
    rw [hposition] at ih
    rw [tokens_of_not_end h, hrest]
    exact .cons hfilled hdelimited htaken hstart hstop ih

end Lexer

/-! ### Spans -/

/-- The offset is a boundary between characters of the text, its two ends included. -/
def Text.IsBoundary (cs : List Char) (offset : Nat) : Prop :=
  ∃ before behind, cs = before ++ behind ∧ offset = width before

/-- The span has its ends in order and on boundaries of the text, so it is inside the text. -/
structure Span.Within (cs : List Char) (s : Span) : Prop where
  ordered : s.start ≤ s.stop
  bounded : s.stop ≤ width cs
  start : IsBoundary cs s.start
  stop : IsBoundary cs s.stop

/-- What stands between two neighbouring spans of a text: the closing delimiter of the earlier token,
a gap, and the opening delimiter of the later one. Only before the end a line comment can be open. -/
def Token.Adjoins (cs : List Char) (t u : Token) : Prop :=
  t.span.stop ≤ u.span.start ∧
    ∃ opening closing gap opening' closing', (opening, closing) ∈ t.kind.delimiters ∧
      (if u.isEnd then Gap.FilledToEnd gap ∧ opening' = []
        else Gap.Filled gap ∧ (opening', closing') ∈ u.kind.delimiters) ∧
      slice? cs t.span.stop u.span.start = some (closing ++ (gap ++ opening'))

namespace Tiled

variable {offset : Nat} {cs : List Char} {ts : List Token} {t : Token}

theorem ne_end_of_delimiters {kind : Kind} {pair : List Char × List Char}
    (h : pair ∈ kind.delimiters) : kind ≠ .endOfInput := by
  rintro rfl
  cases h

/-- Exactly the last token is the end, behind the last character. -/
theorem eq_append_end (h : Tiled offset cs ts) :
    ∃ front, ts = front ++ [Token.endAt (offset + width cs)] ∧ ∀ t ∈ front, t.isEnd = false := by
  induction h with
  | last _ => exact ⟨[], rfl, fun _ h => nomatch h⟩
  | @cons offset gap opening closing rest t ts filled delimited taken start stop tiled ih =>
    obtain ⟨front, hts, hopen⟩ := ih
    have hend : t.isEnd = false := beq_false_of_ne (ne_end_of_delimiters delimited)
    refine ⟨t :: front, ?_, List.forall_mem_cons.2 ⟨hend, hopen⟩⟩
    rw [hts, stop, start]
    simp [Nat.add_assoc]

/-- Every span lies inside the text, on boundaries of its characters. -/
theorem within (h : Tiled offset cs ts) {source before : List Char} (hsource : source = before ++ cs)
    (hoffset : offset = width before) (ht : t ∈ ts) : t.span.Within source := by
  induction h generalizing before with
  | @last offset gap _ =>
    rw [List.mem_singleton] at ht
    have hwidth : width source = offset + width gap := by rw [hsource, width_append, hoffset]
    have hend : IsBoundary source (offset + width gap) := ⟨source, [], by simp, hwidth.symm⟩
    rw [ht]
    exact ⟨Nat.le_refl _, Nat.le_of_eq hwidth.symm, hend, hend⟩
  | @cons offset gap opening closing rest u us filled delimited taken start stop tiled ih =>
    rcases List.mem_cons.1 ht with rfl | ht
    · refine ⟨?_, ?_, ?_, ?_⟩
      · rw [stop]
        exact Nat.le_add_right _ _
      · rw [hsource, stop, start, hoffset]
        simp only [width_append]
        omega
      · refine ⟨before ++ (gap ++ opening), t.text.toList ++ (closing ++ rest), ?_, ?_⟩
        · rw [hsource]
          simp
        · rw [start, hoffset, width_append before]
      · refine ⟨before ++ (gap ++ (opening ++ t.text.toList)), closing ++ rest, ?_, ?_⟩
        · rw [hsource]
          simp
        · rw [stop, start, hoffset]
          simp [Nat.add_assoc]
    · have hrest : source =
          (before ++ (gap ++ (opening ++ (u.text.toList ++ closing)))) ++ rest := by
        rw [hsource]
        simp
      refine ih hrest ?_ ht
      rw [stop, start, hoffset]
      simp [Nat.add_assoc]

/-- The first token of a tiling stands behind a gap and its opening delimiter. -/
theorem first (h : Tiled offset cs (t :: ts)) :
    ∃ gap opening closing rest, cs = gap ++ (opening ++ rest) ∧
      t.span.start = offset + width (gap ++ opening) ∧
      (if t.isEnd then Gap.FilledToEnd gap ∧ opening = []
        else Gap.Filled gap ∧ (opening, closing) ∈ t.kind.delimiters) := by
  cases h with
  | @last _ gap filled =>
    have hend : (Token.endAt (offset + width cs)).isEnd = true := rfl
    exact ⟨cs, [], [], [], by simp, by simp [Token.endAt], by rw [if_pos hend]; exact ⟨filled, rfl⟩⟩
  | @cons _ gap opening closing rest _ _ filled delimited taken start stop tiled =>
    have hend : t.isEnd = false := beq_false_of_ne (ne_end_of_delimiters delimited)
    refine ⟨gap, opening, closing, t.text.toList ++ (closing ++ rest), rfl, start, ?_⟩
    rw [if_neg (by simp [hend])]
    exact ⟨filled, delimited⟩

/-- Between neighbouring spans stand a closing delimiter, a gap and an opening delimiter. -/
theorem chain (h : Tiled offset cs ts) {source before : List Char} (hsource : source = before ++ cs)
    (hoffset : offset = width before) : ts.IsChain (Token.Adjoins source) := by
  induction h generalizing before with
  | last _ => exact List.isChain_singleton _
  | @cons offset gap opening closing rest t ts filled delimited taken start stop tiled ih =>
    have hrest : source =
        (before ++ (gap ++ (opening ++ (t.text.toList ++ closing)))) ++ rest := by
      rw [hsource]
      simp
    have hstop : t.span.stop = width (before ++ (gap ++ (opening ++ t.text.toList))) := by
      rw [stop, start, hoffset]
      simp [Nat.add_assoc]
    have hchain := ih hrest (by rw [hstop]; simp [Nat.add_assoc])
    cases ts with
    | nil => exact List.isChain_singleton _
    | cons u us =>
      obtain ⟨gap', opening', closing', rest', hcut, hfirst, hgap⟩ := tiled.first
      refine List.IsChain.cons_cons ⟨?_, opening, closing, gap', opening', closing', delimited, hgap,
        ?_⟩ hchain
      · rw [hfirst]
        omega
      · have hslice := slice?_append (before ++ (gap ++ (opening ++ t.text.toList)))
          (closing ++ (gap' ++ opening')) rest'
        rw [hfirst, hstop, hrest, hcut]
        simpa [Nat.add_assoc] using hslice

end Tiled

/-- Token spans tile the source. -/
theorem tokenize_tiles (policy : OverflowPolicy) (source : String) :
    -- Exactly the last token is the end, and it stands behind the last character.
    (∃ front, tokenize policy source = front ++ [Token.endAt (width source.toList)] ∧
      ∀ t ∈ front, t.isEnd = false) ∧
    -- Every step but one at the end moves forward; at the end all further steps are the same.
    (∀ l : Lexer, l.next.1.isEnd = false → l.position < l.next.2.position) ∧
    (∀ l : Lexer, l.next.1.isEnd = true →
      ∀ n, (fun read : Token × Lexer => read.2.next)^[n] l.next = l.next) ∧
    -- Every span lies inside the source, and neighbouring spans leave out only what is told.
    (∀ t ∈ tokenize policy source, t.span.Within source.toList) ∧
    (tokenize policy source).IsChain (Token.Adjoins source.toList) ∧
    -- The source is nothing but spans, delimiters and gaps, the first gap included.
    Tiled 0 source.toList (tokenize policy source) := by
  have htiled : Tiled 0 source.toList (tokenize policy source) :=
    (Lexer.start policy source).tiled_tokens
  have hend := htiled.eq_append_end
  rw [Nat.zero_add] at hend
  refine ⟨hend, fun l h => Lexer.position_lt_next h, fun l h => Lexer.iterate_next_of_end h,
    fun t ht => ?_, ?_, htiled⟩
  · exact htiled.within (List.nil_append _).symm rfl ht
  · exact htiled.chain (List.nil_append _).symm rfl

end TaggedSql
