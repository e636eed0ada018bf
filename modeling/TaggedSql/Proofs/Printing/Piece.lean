import TaggedSql.Proofs.Token.Source

/-!
# Printed tokens

A piece is a token before it has a place in a source: its kind and its characters, together with the
proof that the lexer reads it back whenever a space or the end of the source follows. A text is
printed from pieces with one space between neighbours.

* `spaced`: texts with one space between neighbours;
* `tokens_print`: the lexer reads a printed text back as the tokens of its pieces;
* `Laid`: the tokens are those of the pieces, each span covers the text of its token, and a span over
  neighbouring words covers the words with one space between them;
* `laid_print`: this holds of the tokens of a printed text.
-/

namespace TaggedSql

namespace Text

/-- What may follow a printed token: nothing, or a text that begins with a space. -/
def Ended (cs : List Char) : Prop := cs = [] ∨ ∃ more, cs = ' ' :: more

/-- Texts with a space before each. -/
def trail : List (List Char) → List Char
  | [] => []
  | t :: ts => ' ' :: (t ++ trail ts)

/-- Texts with one space between neighbours. -/
def spaced : List (List Char) → List Char
  | [] => []
  | t :: ts => t ++ trail ts

theorem ended_trail (ts : List (List Char)) : Ended (trail ts) := by
  cases ts with
  | nil => exact .inl rfl
  | cons t ts => exact .inr ⟨t ++ trail ts, rfl⟩

end Text

open Text

/-- A token before it has a place in a source. -/
structure Piece where
  kind : Kind
  opening : List Char
  body : List Char
  closing : List Char
  /-- The lexer reads the piece back, and skips nothing before it. -/
  reads : ∀ (policy : OverflowPolicy) (more : List Char), Ended more →
    ∃ c cs, opening ++ (body ++ (closing ++ more)) = c :: cs ∧
      Gap.read (c :: cs) = .closed [] (c :: cs) ∧
      Lexeme.read policy c cs = ⟨kind, opening, body, closing, more⟩
  /-- The end of the source is no piece, and a piece is spelled correctly. -/
  proper : kind ≠ .endOfInput ∧ ∀ p, kind ≠ .problem p
  /-- A plain word has nothing around it. -/
  plain : kind = .identifier false → opening = [] ∧ closing = []

namespace Piece

/-- All characters of a piece. -/
def text (p : Piece) : List Char := p.opening ++ (p.body ++ p.closing)

/-- The kind and the text of the token, without its place. -/
def bare (p : Piece) : Kind × String := (p.kind, String.ofList p.body)

/-- The token of a piece whose characters begin at an offset. -/
def tokenAt (p : Piece) (offset : Nat) : Token :=
  let start := offset + width p.opening
  ⟨p.kind, ⟨start, start + width p.body⟩, String.ofList p.body⟩

/-- Prints pieces with one space between neighbours. -/
def print (ps : List Piece) : String := String.ofList (spaced (ps.map text))

/-- The tokens of pieces that stand behind a text of some width, with a space before each. -/
def layout : Nat → List Piece → List Token
  | _, [] => []
  | offset, p :: ps => p.tokenAt (offset + 1) :: layout (offset + 1 + width p.text) ps

/-- The tokens of pieces that are printed at the beginning of a source. -/
def layoutStart : List Piece → List Token
  | [] => []
  | p :: ps => p.tokenAt 0 :: layout (width p.text) ps

end Piece

/-! ### Reading printed text -/

/-- The next token behind at most one space is that of the piece there. -/
theorem Lexer.next_piece (policy : OverflowPolicy) (offset : Nat) (p : Piece)
    {lead more : List Char} (hlead : lead = [] ∨ lead = [' ']) (hmore : Ended more) :
    (Lexer.mk policy offset (lead ++ (p.text ++ more))).next =
      (p.tokenAt (offset + width lead), ⟨policy, offset + width lead + width p.text, more⟩) := by
  obtain ⟨c, cs, htext, hgap, hread⟩ := p.reads policy more hmore
  have hall : p.text ++ more = c :: cs := by
    rw [← htext]
    simp [Piece.text]
  have hclosed : Gap.read (lead ++ (p.text ++ more)) = .closed lead (c :: cs) := by
    rw [hall]
    rcases hlead with rfl | rfl
    · exact hgap
    · have hblank : isBlank ' ' = true := by decide
      show Gap.read (' ' :: c :: cs) = .closed [' '] (c :: cs)
      rw [Gap.read, if_pos hblank, hgap]
      rfl
  rw [Lexer.next_of_lexeme hclosed]
  show (Lexer.lexemeToken _ lead (Lexeme.read policy c cs), _) = _
  rw [hread]
  simp only [Lexer.lexemeToken, Piece.tokenAt, Piece.text, width_append, Prod.mk.injEq,
    Lexer.mk.injEq, true_and, and_true]
  omega

theorem Piece.isEnd_tokenAt (p : Piece) (offset : Nat) : (p.tokenAt offset).isEnd = false := by
  have hend : ¬ p.kind = .endOfInput := p.proper.1
  simpa [Token.isEnd, Piece.tokenAt] using hend

theorem Lexer.tokens_empty (policy : OverflowPolicy) (offset : Nat) :
    (Lexer.mk policy offset []).tokens = [Token.endAt offset] := by
  have hnext : (Lexer.mk policy offset []).next = (Token.endAt offset, ⟨policy, offset, []⟩) := by
    have hgap : Gap.read (Lexer.mk policy offset []).rest = .closed [] [] := by
      rw [Gap.read]
    rw [Lexer.next_of_end hgap]
    rfl
  rw [Lexer.tokens_of_end (by rw [hnext]; rfl), hnext]

/-- The lexer reads pieces with a space before each. -/
theorem Lexer.tokens_trail (policy : OverflowPolicy) (ps : List Piece) :
    ∀ offset, (Lexer.mk policy offset (trail (ps.map Piece.text))).tokens =
      Piece.layout offset ps ++ [Token.endAt (offset + width (trail (ps.map Piece.text)))] := by
  induction ps with
  | nil =>
    intro offset
    exact Lexer.tokens_empty policy offset
  | cons p ps ih =>
    intro offset
    have hwidth : width [' '] = 1 := rfl
    have hnext := Lexer.next_piece policy offset p (.inr rfl) (ended_trail (ps.map Piece.text))
    rw [hwidth] at hnext
    show (Lexer.mk policy offset ([' '] ++ (p.text ++ trail (ps.map Piece.text)))).tokens = _
    rw [Lexer.tokens_of_not_end (by rw [hnext]; exact p.isEnd_tokenAt _), hnext, ih]
    have hspace : (' ').utf8Size = 1 := rfl
    simp only [Piece.layout, List.cons_append, List.map_cons, trail, width_cons, width_append,
      hspace, Nat.add_assoc]

/-- The lexer reads a printed text back as the tokens of its pieces. -/
theorem tokens_print (policy : OverflowPolicy) (ps : List Piece) :
    tokenize policy (Piece.print ps) =
      Piece.layoutStart ps ++ [Token.endAt (width (spaced (ps.map Piece.text)))] := by
  show (Lexer.mk policy 0 (Piece.print ps).toList).tokens = _
  rw [Piece.print, String.toList_ofList]
  cases ps with
  | nil => exact Lexer.tokens_empty policy 0
  | cons p ps =>
    have hnext := Lexer.next_piece policy 0 p (.inl rfl) (ended_trail (ps.map Piece.text))
    rw [width_nil, Nat.add_zero, Nat.zero_add] at hnext
    show (Lexer.mk policy 0 ([] ++ (p.text ++ trail (ps.map Piece.text)))).tokens = _
    rw [Lexer.tokens_of_not_end (by rw [hnext]; exact p.isEnd_tokenAt _), hnext,
      Lexer.tokens_trail]
    simp only [Piece.layoutStart, List.cons_append, List.map_cons, spaced, width_append]

/-! ### Where printed tokens stand -/

/-- The tokens are those of the pieces and stand in the source as they are printed. -/
inductive Laid (source : String) : List Token → List Piece → Prop where
  | nil : Laid source [] []
  | cons {t : Token} {ts : List Token} {p : Piece} {ps : List Piece} (bare : t.bare = p.bare)
      (slice : t.span.slice source = t.text)
      (words : ∀ ws, ws <+: ts → (∀ w ∈ t :: ws, w.kind = .identifier false) →
        (Span.mk t.span.start (Token.lastStop t.span.stop ws)).slice source =
          String.ofList (spaced (t.text.toList :: ws.map fun w => w.text.toList)))
      (rest : Laid source ts ps) : Laid source (t :: ts) (p :: ps)

namespace Piece

/-- A piece of a plain word has only the characters of its body. -/
theorem text_of_plain {p : Piece} (h : p.kind = .identifier false) : p.text = p.body := by
  obtain ⟨hopening, hclosing⟩ := p.plain h
  simp [text, hopening, hclosing]

/-- The words at the front of a layout are the beginning of the text. -/
theorem trail_of_words {ps : List Piece} {ws : List Token} : ∀ {offset : Nat},
    ws <+: layout offset ps → (∀ w ∈ ws, w.kind = .identifier false) →
    ∃ behind, trail (ps.map text) = trail (ws.map fun w => w.text.toList) ++ behind ∧
      Token.lastStop offset ws = offset + width (trail (ws.map fun w => w.text.toList)) := by
  induction ws generalizing ps with
  | nil =>
    intro offset _ _
    exact ⟨trail (ps.map text), rfl, rfl⟩
  | cons w ws ih =>
    intro offset hprefix hplain
    cases ps with
    | nil => simp [layout] at hprefix
    | cons p ps =>
      obtain ⟨rfl, htail⟩ := List.cons_prefix_cons.1 hprefix
      have hp : p.kind = .identifier false := hplain _ List.mem_cons_self
      obtain ⟨behind, htrail, hstop⟩ :=
        ih htail fun w' hw' => hplain w' (List.mem_cons_of_mem _ hw')
      have hspace : (' ').utf8Size = 1 := rfl
      have hend : (p.tokenAt (offset + 1)).span.stop = offset + 1 + width p.text := by
        simp [tokenAt, text_of_plain hp, (p.plain hp).1]
      refine ⟨behind, ?_, ?_⟩
      · simp [trail, htrail, text_of_plain hp, tokenAt]
      · show Token.lastStop (p.tokenAt (offset + 1)).span.stop ws = _
        rw [hend, hstop]
        simp only [List.map_cons, trail, width_cons, width_append, hspace, text_of_plain hp,
          tokenAt, String.toList_ofList]
        omega

/-- The token of a piece stands before the layout of further pieces as it is printed. -/
theorem laid_cons {source : String} {p : Piece} {ps : List Piece} {offset : Nat}
    (before : List Char) (h : source.toList = before ++ (p.text ++ trail (ps.map text)))
    (hoffset : offset = width before) (hrest : Laid source (layout (offset + width p.text) ps) ps) :
    Laid source (p.tokenAt offset :: layout (offset + width p.text) ps) (p :: ps) := by
  refine .cons rfl ?_ ?_ hrest
  · refine Span.slice_of_append (before ++ p.opening) p.body (p.closing ++ trail (ps.map text))
      ?_ ?_ ?_
    · simp [h, text]
    · simp [hoffset]
    · simp [hoffset]
  · intro ws hws hplain
    have hp : p.kind = .identifier false := hplain _ List.mem_cons_self
    obtain ⟨behind, htrail, hstop⟩ :=
      trail_of_words hws fun w hw => hplain w (List.mem_cons_of_mem _ hw)
    have hend : (p.tokenAt offset).span.stop = offset + width p.text := by
      simp [tokenAt, text_of_plain hp, (p.plain hp).1]
    rw [hend, hstop]
    refine Span.slice_of_append before _ behind ?_ ?_ ?_
    · simp [h, htrail, spaced, tokenAt, text_of_plain hp]
    · simp [tokenAt, hoffset, (p.plain hp).1]
    · simp only [spaced, tokenAt, String.toList_ofList, width_append, text_of_plain hp]
      omega

theorem laid_layout {source : String} (ps : List Piece) : ∀ (before : List Char) (offset : Nat),
    source.toList = before ++ trail (ps.map text) → offset = width before →
    Laid source (layout offset ps) ps := by
  induction ps with
  | nil =>
    intro before offset _ _
    exact .nil
  | cons p ps ih =>
    intro before offset h hoffset
    have hspace : width [' '] = 1 := rfl
    refine laid_cons (before ++ [' ']) ?_ ?_ (ih (before ++ [' '] ++ p.text) _ ?_ ?_)
    · simpa [trail] using h
    · rw [width_append, hspace, hoffset]
    · simpa [trail] using h
    · rw [width_append, width_append, hspace, hoffset]

theorem isEnd_of_mem_layout {ps : List Piece} : ∀ {offset : Nat} {t : Token},
    t ∈ layout offset ps → t.isEnd = false := by
  induction ps with
  | nil =>
    intro offset t h
    simp [layout] at h
  | cons p ps ih =>
    intro offset t h
    rcases List.mem_cons.1 h with rfl | h
    · exact p.isEnd_tokenAt _
    · exact ih h

/-- No token before the end of a printed text is lost. -/
theorem ahead_print (policy : OverflowPolicy) (ps : List Piece) :
    (Stream.ofSource policy (print ps)).ahead = layoutStart ps := by
  have hopen : ∀ t ∈ layoutStart ps, (!t.isEnd) = true := by
    intro t h
    cases ps with
    | nil => simp [layoutStart] at h
    | cons p ps =>
      rcases List.mem_cons.1 h with rfl | h
      · rw [p.isEnd_tokenAt]; rfl
      · rw [isEnd_of_mem_layout h]; rfl
  show (tokenize policy (print ps)).takeWhile (fun t => !t.isEnd) = _
  rw [tokens_print, List.takeWhile_append_of_pos hopen]
  simp [Token.isEnd, Token.endAt]

/-- The stream of a printed text holds the tokens of its pieces as they are printed. -/
theorem laid_print (policy : OverflowPolicy) (ps : List Piece) :
    Laid (print ps) (Stream.ofSource policy (print ps)).ahead ps := by
  rw [ahead_print]
  cases ps with
  | nil => exact .nil
  | cons p ps =>
    have hzero : layout (width p.text) ps = layout (0 + width p.text) ps := by rw [Nat.zero_add]
    show Laid _ (p.tokenAt 0 :: layout (width p.text) ps) (p :: ps)
    rw [hzero]
    refine laid_cons [] ?_ rfl (laid_layout ps p.text _ ?_ ?_)
    · simp [print, spaced]
    · simp [print, spaced]
    · rw [Nat.zero_add]

end Piece

end TaggedSql
