import TaggedSql.Proofs.Token.Tiling

/-!
# The order of tokens

Every token begins before the next one does, also where a span is empty: behind the beginning of a
span there is always a character that its token takes, be it only a closing quote. So no two tokens of
a source have the same span.

* `Lexer.pairwise_start`: the tokens of a lexer begin one behind the other;
* `number_eq_of_span_eq`: a span belongs to one token only.
-/

namespace TaggedSql

open Text

namespace Lexeme

/-- A lexeme takes a character from the beginning of its span on, unless it may be one that takes all
its characters there. -/
def Begins (x : Lexeme) : Prop := x.opening = [] ∨ x.body ++ x.closing ≠ []

theorem begins_string (cs : List Char) : (string cs).Begins := by
  unfold string
  split
  next => exact .inr (by simp)
  next => exact .inl rfl

theorem begins_quotedIdentifier (quote : Char) (cs : List Char) :
    (quotedIdentifier quote cs).Begins := by
  unfold quotedIdentifier
  split
  next => exact .inl rfl
  next => exact .inr (by simp)
  next => exact .inl rfl

theorem begins_blob (mark : Char) (cs : List Char) : (blob mark cs).Begins := by
  unfold blob
  split
  next => exact .inl rfl
  split
  next =>
    dsimp only
    split
    next => exact .inr (by simp)
    next => exact .inl rfl
  next => exact .inl rfl

/-- The name of a parameter has a first character. -/
theorem begins_namedParameter {cs : List Char} (h : cs.head?.any startsWord = true) :
    (namedParameter cs).Begins := by
  cases cs with
  | nil => cases h
  | cons c cs =>
    have hc : continuesWord c = true := continuesWord_of_startsWord (by simpa using h)
    right
    rw [namedParameter, List.append_nil, List.takeWhile_cons_of_pos hc]
    exact List.cons_ne_nil _ _

theorem begins_sign (c : Char) (cs : List Char) : (sign c cs).Begins := by
  unfold sign
  split
  next => exact .inl rfl
  split <;> exact .inl rfl

theorem begins_read (policy : OverflowPolicy) (c : Char) (cs : List Char) :
    (read policy c cs).Begins := by
  unfold read
  split
  next => exact begins_string cs
  split
  next => exact begins_quotedIdentifier c cs
  split
  next => exact begins_blob c cs.tail
  split
  next => exact .inl (isNumeral_numeral policy _).opening
  split
  next => exact .inl rfl
  split
  next h => exact begins_namedParameter h.2
  next => exact begins_sign c cs

/-- Every lexeme takes a character from the beginning of its span on. -/
theorem body_append_closing_ne_nil (policy : OverflowPolicy) (c : Char) (cs : List Char) :
    (read policy c cs).body ++ (read policy c cs).closing ≠ [] := by
  rcases begins_read policy c cs with hopening | hne
  · have htaken := (read_reads policy c cs).taken_ne_nil
    rwa [taken, hopening, List.nil_append] at htaken
  · exact hne

end Lexeme

/-- No token of a tiling begins before the text that is tiled. -/
theorem Tiled.offset_le {offset : Nat} {cs : List Char} {ts : List Token} {t : Token}
    (h : Tiled offset cs ts) (ht : t ∈ ts) : offset ≤ t.span.start := by
  induction h with
  | last _ =>
    rw [List.mem_singleton.1 ht]
    exact Nat.le_add_right _ _
  | cons _ _ _ start stop _ ih =>
    rcases List.mem_cons.1 ht with rfl | ht
    · rw [start]
      exact Nat.le_add_right _ _
    · have hrest := ih ht
      omega

namespace Lexer

/-- The lexer goes on behind the beginning of the token that it has read. -/
theorem start_lt_position {l : Lexer} (h : l.next.1.isEnd = false) :
    l.next.1.span.start < l.next.2.position := by
  cases hread : Gap.read l.rest with
  | unclosed skipped comment =>
    have hpos := width_pos (Gap.comment_ne_nil hread)
    rw [next_of_unclosed hread]
    exact Nat.lt_add_of_pos_right hpos
  | closed skipped rest =>
    cases rest with
    | nil =>
      rw [next_of_end hread] at h
      cases h
    | cons c cs =>
      have hpos := width_pos (Lexeme.body_append_closing_ne_nil l.policy c cs)
      rw [width_append] at hpos
      rw [next_of_lexeme hread]
      simp only [lexemeToken]
      omega

/-- The tokens of a lexer begin one behind the other. -/
theorem pairwise_start (l : Lexer) : l.tokens.Pairwise (·.span.start < ·.span.start) := by
  induction l using tokens_induction with
  | hend l h =>
    rw [tokens_of_end h]
    exact List.pairwise_singleton _ _
  | hnext l h ih =>
    rw [tokens_of_not_end h]
    refine .cons (fun t ht => ?_) ih
    exact Nat.lt_of_lt_of_le (start_lt_position h) (l.next.2.tiled_tokens.offset_le ht)

end Lexer

/-- A span belongs to one token of a source only. -/
theorem number_eq_of_span_eq {policy : OverflowPolicy} {source : String} {i j : Nat} {t u : Token}
    (ht : (tokenize policy source)[i]? = some t) (hu : (tokenize policy source)[j]? = some u)
    (h : t.span = u.span) : i = j := by
  have hpairwise := List.pairwise_iff_getElem.1 (Lexer.start policy source).pairwise_start
  obtain ⟨hi, rfl⟩ := List.getElem?_eq_some_iff.1 ht
  obtain ⟨hj, rfl⟩ := List.getElem?_eq_some_iff.1 hu
  rcases Nat.lt_trichotomy i j with hlt | heq | hlt
  · exact absurd (congrArg Span.start h) (Nat.ne_of_lt (hpairwise i j hi hj hlt))
  · exact heq
  · exact absurd (congrArg Span.start h).symm (Nat.ne_of_lt (hpairwise j i hj hi hlt))

end TaggedSql
