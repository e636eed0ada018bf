import TaggedSql.Proofs.Token.Source

/-!
# What stands inside a token

The lexer decides where a quoted token ends, and a tree reads the text inside once more. Both agree:
the text between quotes is a doubled text, and that of a blob is made of pairs of hexadecimal digits.

* `Text.undouble_double`, `Text.double_undouble_of_split?`: doubling quotes, from both sides;
* `Text.undouble_eq_self_iff`: the texts that making quotes single leaves alone;
* `Text.exists_hexBytes?`: pairs of hexadecimal digits spell bytes;
* `Lexeme.WrittenAs`: how the text of a lexeme of each kind is written, `Lexeme.written_read`: every
  lexeme is written so;
* `exists_lexeme_of_mem_tokenize`: the lexeme of a token, at its place in the source.
-/

namespace TaggedSql

namespace Text

/-! ### Doubled quotes -/

variable {quote : Char}

theorem undouble_cons_of_ne {c : Char} (h : c ≠ quote) (cs : List Char) :
    undouble quote (c :: cs) = c :: undouble quote cs := by
  cases cs with
  | nil => rfl
  | cons d ds => rw [undouble, if_neg fun hquotes => h hquotes.1]

theorem undouble_quotes (quote : Char) (cs : List Char) :
    undouble quote (quote :: quote :: cs) = quote :: undouble quote cs := by
  rw [undouble, if_pos ⟨rfl, rfl⟩]

/-- A doubled text stands for the text. -/
theorem undouble_double (quote : Char) (cs : List Char) : undouble quote (double quote cs) = cs := by
  induction cs with
  | nil => rfl
  | cons c cs ih =>
    by_cases hc : c = quote
    · subst hc
      rw [double, if_pos rfl, undouble_quotes, ih]
    · rw [double, if_neg hc, undouble_cons_of_ne hc, ih]

theorem double_cons_of_ne {c : Char} (h : c ≠ quote) (cs : List Char) :
    double quote (c :: cs) = c :: double quote cs := by
  rw [double, if_neg h]

/-- What stands between quotes is a doubled text. -/
theorem double_undouble_of_split? {cs body rest : List Char}
    (h : split? quote cs = some (body, rest)) : double quote (undouble quote body) = body := by
  fun_induction split? quote cs generalizing body with
  | case1 => cases h
  | case2 => cases h; rfl
  | case3 => cases h
  | case4 cs ih =>
    obtain ⟨⟨b, r⟩, hsplit, heq⟩ := Option.map_eq_some_iff.1 h
    cases heq
    rw [undouble_quotes, double, if_pos rfl, ih hsplit]
  | case5 d cs hd => cases h; rfl
  | case6 c d cs hc ih =>
    obtain ⟨⟨b, r⟩, hsplit, heq⟩ := Option.map_eq_some_iff.1 h
    cases heq
    rw [undouble_cons_of_ne hc, double_cons_of_ne hc, ih hsplit]

theorem length_undouble_le (quote : Char) (cs : List Char) :
    (undouble quote cs).length ≤ cs.length := by
  fun_induction undouble quote cs with
  | case1 c d cs hquotes ih =>
    simp only [List.length_cons]
    omega
  | case2 c d cs hquotes ih =>
    simp only [List.length_cons] at *
    omega
  | case3 cs => exact Nat.le_refl _

/-- Making quotes single leaves a text alone exactly if no quote in it is doubled. -/
theorem undouble_eq_self_iff {cs : List Char} :
    undouble quote cs = cs ↔ ¬ [quote, quote] <:+: cs := by
  fun_induction undouble quote cs with
  | case1 c d cs hquotes ih =>
    obtain ⟨hc, hd⟩ := hquotes
    have hlength := length_undouble_le quote cs
    constructor
    · intro heq
      have := congrArg List.length heq
      simp only [List.length_cons] at this
      omega
    · intro hinfix
      refine absurd ⟨[], cs, ?_⟩ hinfix
      rw [hc, hd]
      rfl
  | case2 c d cs hquotes ih =>
    have hfront : ¬ [quote, quote] <+: c :: d :: cs := by
      intro hprefix
      obtain ⟨rfl, hrest⟩ := List.cons_prefix_cons.1 hprefix
      obtain ⟨rfl, _⟩ := List.cons_prefix_cons.1 hrest
      exact hquotes ⟨rfl, rfl⟩
    rw [List.infix_cons_iff, or_iff_right hfront, ← ih]
    simp
  | case3 cs hshort =>
    constructor
    · intro _ hinfix
      have hlength := hinfix.length_le
      match cs, hshort with
      | [], _ => simp at hlength
      | [c], _ => simp at hlength
      | c :: d :: cs, hshort => exact hshort c d cs rfl
    · intro _
      rfl

/-! ### Pairs of hexadecimal digits -/

theorem hexByte?_of_digits {high low : Char} {h l : Nat} (hhigh : digitValue? high = some h)
    (hlow : digitValue? low = some l) : hexByte? high low = some (UInt8.ofNat (h * 16 + l)) := by
  have hplus : high ≠ '+' := by
    rintro rfl
    cases hhigh
  rw [hexByte?, if_neg hplus, hhigh, hlow]
  rfl

/-- Hexadecimal digits in pairs spell bytes, one for each pair. -/
theorem exists_hexBytes? {cs : List Char} (hdigits : ∀ c ∈ cs, isHexDigit c = true)
    (heven : cs.length % 2 = 0) : ∃ bytes, hexBytes? cs = some bytes ∧ bytes.length = cs.length / 2 := by
  fun_induction hexBytes? cs with
  | case1 => exact ⟨[], rfl, rfl⟩
  | case2 c => simp at heven
  | case3 high low cs ih =>
    obtain ⟨h, hhigh⟩ := Option.isSome_iff_exists.1 (hdigits high (by simp))
    obtain ⟨l, hlow⟩ := Option.isSome_iff_exists.1 (hdigits low (by simp))
    simp only [List.length_cons] at heven
    obtain ⟨bytes, hbytes, hlength⟩ := ih (fun c hc => hdigits c (by simp [hc])) (by omega)
    refine ⟨UInt8.ofNat (h * 16 + l) :: bytes, ?_, ?_⟩
    · rw [hexByte?_of_digits hhigh hlow, Option.bind_some, hbytes, Option.map_some]
    · simp only [List.length_cons]
      omega

end Text

open Text

namespace Lexeme

/-! ### How lexemes are written -/

/-- A word: something that continues a name, and no quote. -/
structure IsName (cs : List Char) : Prop where
  full : cs ≠ []
  continues : ∀ c ∈ cs, continuesWord c = true

theorem IsName.not_infix {cs : List Char} (h : IsName cs) {quote : Char}
    (hquote : continuesWord quote = false) : ¬ [quote, quote] <:+: cs := by
  intro hinfix
  have hmem : quote ∈ cs := hinfix.subset (by simp)
  rw [h.continues quote hmem] at hquote
  cases hquote

/-- How the text of a lexeme of a kind is written, as far as a tree depends on it. -/
def WrittenAs (x : Lexeme) : Kind → Prop
  | .string => double '\x27' (undouble '\x27' x.body) = x.body
  | .identifier true => x.body ≠ [] ∧ ∃ quote ∈ ['\x22', '\x60'],
      x.opening = [quote] ∧ x.closing = [quote] ∧ double quote (undouble quote x.body) = x.body
  | .identifier false => IsName x.body
  | .parameter true => IsName x.body
  | .blob => (∀ c ∈ x.body, isHexDigit c = true) ∧ x.body.length % 2 = 0
  | _ => True

/-- The lexeme is written as its kind says. -/
def Written (x : Lexeme) : Prop := x.WrittenAs x.kind

theorem written_of_isNumeral {x : Lexeme} (h : x.IsNumeral) : x.Written := by
  have hkind := h.kind
  unfold Written
  cases hk : x.kind with
  | integer _ | leastMagnitude | float _ | problem _ => trivial
  | _ =>
    rw [hk] at hkind
    cases hkind

theorem written_string (cs : List Char) : (string cs).Written := by
  unfold string
  split
  next body rest h => exact double_undouble_of_split? h
  next => trivial

theorem written_quotedIdentifier {quote : Char} (h : quote = '\x22' ∨ quote = '\x60')
    (cs : List Char) : (quotedIdentifier quote cs).Written := by
  unfold quotedIdentifier
  split
  next => trivial
  next body rest hfull hsplit =>
    refine ⟨?_, quote, by simpa using h, rfl, rfl, double_undouble_of_split? hsplit⟩
    intro hnil
    exact hfull hnil
  next => trivial

theorem written_blob (mark : Char) (cs : List Char) : (blob mark cs).Written := by
  unfold blob
  split
  next => trivial
  split
  next =>
    dsimp only
    split
    next heven => exact ⟨fun c hc => List.mem_takeWhile_imp hc, heven⟩
    next => trivial
  next => trivial

theorem isName_takeWhile {cs : List Char} (h : cs.head?.any startsWord = true) :
    IsName (cs.takeWhile continuesWord) := by
  refine ⟨?_, fun c hc => List.mem_takeWhile_imp hc⟩
  cases cs with
  | nil => cases h
  | cons c cs =>
    rw [List.takeWhile_cons_of_pos (continuesWord_of_startsWord h)]
    exact List.cons_ne_nil _ _

theorem written_word {c : Char} {cs : List Char} (h : startsWord c = true) :
    (word (c :: cs)).Written := by
  unfold word
  dsimp only
  cases Word.ofText? ((c :: cs).takeWhile continuesWord) with
  | some w => trivial
  | none => 
    have hname : IsName ((c :: cs).takeWhile continuesWord) := isName_takeWhile h
    exact hname

theorem written_sign (c : Char) (cs : List Char) : (sign c cs).Written := by
  unfold sign
  split
  next => trivial
  split <;> trivial

/-- Every lexeme is written as its kind says. -/
theorem written_read (policy : OverflowPolicy) (c : Char) (cs : List Char) :
    (read policy c cs).Written := by
  unfold read
  split
  next => exact written_string cs
  split
  next h => exact written_quotedIdentifier h cs
  split
  next => exact written_blob c cs.tail
  split
  next => exact written_of_isNumeral (isNumeral_numeral policy _)
  split
  next h => exact written_word h
  split
  next h => exact isName_takeWhile h.2
  next => exact written_sign c cs

end Lexeme

/-! ### The lexemes of tokens -/

/-- A token was read at its place: the source is cut around the lexeme, and the span of the token
covers the text of it. -/
structure Token.ReadAs (source : String) (t : Token) (before : List Char) (x : Lexeme) : Prop where
  kind : t.kind = x.kind
  text : t.text = String.ofList x.body
  source : source.toList = before ++ (x.taken ++ x.rest)
  span : t.span = ⟨width (before ++ x.opening), width (before ++ x.opening) + width x.body⟩

/-- The lexeme of a token that is neither the end of a source nor misspelled. -/
theorem Lexer.Placed.exists_lexeme {source : String} {l : Lexer} (h : l.Placed source)
    (hspelled : l.next.1.kind.isProblem = false) (hend : l.next.1.isEnd = false) :
    ∃ before c cs, l.next.1.ReadAs source before (Lexeme.read l.policy c cs) := by
  obtain ⟨before, hsource, hposition⟩ := h
  have hall := Gap.all_read l.rest
  cases hread : Gap.read l.rest with
  | unclosed skipped comment =>
    rw [next_of_unclosed hread] at hspelled
    cases hspelled
  | closed skipped rest =>
    rw [hread] at hall
    cases rest with
    | nil =>
      rw [next_of_end hread] at hend
      cases hend
    | cons c cs =>
      refine ⟨before ++ skipped, c, cs, ?_⟩
      have htaken := (Lexeme.read_reads l.policy c cs).taken_append_rest
      rw [next_of_lexeme hread]
      refine ⟨rfl, rfl, ?_, ?_⟩
      · rw [htaken, hsource, ← hall, Gap.all, List.append_assoc]
      · simp [lexemeToken, hposition, Nat.add_assoc]

theorem Lexer.Placed.exists_lexeme_of_mem {source : String} {l : Lexer} (h : l.Placed source)
    {t : Token} (ht : t ∈ l.tokens) (hspelled : t.kind.isProblem = false)
    (hend : t.isEnd = false) :
    ∃ before c cs, t.ReadAs source before (Lexeme.read l.policy c cs) := by
  induction l using tokens_induction with
  | hend l hl =>
    rw [tokens_of_end hl, List.mem_singleton] at ht
    rw [ht, hl] at hend
    cases hend
  | hnext l hl ih =>
    rw [tokens_of_not_end hl] at ht
    rcases List.mem_cons.1 ht with rfl | ht
    · exact h.exists_lexeme hspelled hl
    · have hlexeme := ih h.next.1 ht
      rwa [policy_next] at hlexeme

/-- The lexeme that a token of a source was read as; it is written as the kind of the token says. -/
theorem exists_lexeme_of_mem_tokenize {policy : OverflowPolicy} {source : String} {t : Token}
    {k : Kind} (h : t ∈ tokenize policy source) (hk : t.kind = k) (hspelled : k.isProblem = false)
    (hend : k ≠ .endOfInput) :
    ∃ before x, t.ReadAs source before x ∧ x.WrittenAs k := by
  subst hk
  obtain ⟨before, c, cs, hread⟩ := (Lexer.placed_start policy source).exists_lexeme_of_mem h hspelled
    (beq_false_of_ne hend)
  refine ⟨before, _, hread, ?_⟩
  rw [hread.kind]
  exact Lexeme.written_read _ c cs

end TaggedSql
