import TaggedSql.Proofs.Session.FirstError
import TaggedSql.Proofs.Text.Annotation
import TaggedSql.Proofs.Token.Filler

/-!
# Messages in one line

A message is made of fixed words, of numbers, and of pieces of the source. A piece that the lexer cuts
out character by character has no newline in it, because no class of characters that it takes holds one.
Only between quotes everything is taken, so a message that repeats a string or a quoted name repeats the
newlines in it. Every other message fits into the first line of the annotated form.

* `Binary64.oneLine_write`: numbers are written in one line;
* `Lexeme.Fits`: the description of a lexeme is one line unless its text stands in quotes;
* `Failure.oneLine_message_iff`: the messages that are one line;
* `annotate_laidOut_iff`: which refusals of a source are annotated in five lines.
-/

namespace TaggedSql

open Text

/-! ### Words and numbers -/

theorem Word.oneLine_spelling (w : Word) : OneLine w.spelling := by
  have hall : ∀ w ∈ Word.all, OneLine w.spelling := by decide
  exact hall w w.mem_all

theorem Symbol.oneLine_spelling (s : Symbol) : OneLine s.spelling := by
  cases s <;> decide

theorem Expectation.oneLine_text (e : Expectation) : OneLine e.text := by
  cases e with
  | terminal t =>
    cases t with
    | word w => exact w.oneLine_spelling
    | symbol s =>
      have hquote : OneLine "`" := by decide
      exact (hquote.append s.oneLine_spelling).append hquote
  | _ => decide

theorem oneLine_toString_int (n : Int) : OneLine (toString n) := by
  cases n with
  | ofNat n => exact oneLine_toString n
  | negSucc n =>
    have hsign : OneLine "-" := by decide
    exact hsign.append (oneLine_toString (n + 1))

namespace Binary64

theorem mem_of_mem_dropTrailingZeros {c : Char} {cs : List Char} (h : c ∈ dropTrailingZeros cs) :
    c ∈ cs := by
  rw [dropTrailingZeros, List.mem_reverse] at h
  exact List.mem_reverse.1 ((List.dropWhile_sublist _).subset h)

theorem newline_notMem_shortest (tie : Tie) (n : Nat) : '\n' ∉ (shortest tie n).digits := by
  rw [shortest]
  cases hfound : (List.range 17).findSome? fun i => withDigits? tie n (decimalExponent n) (i + 1) with
  | none => decide
  | some d =>
    obtain ⟨i, _, hi⟩ := List.exists_of_findSome?_eq_some hfound
    obtain ⟨c, _, rfl⟩ := Option.map_eq_some_iff.1 hi
    intro hmem
    exact newline_notMem_toDigits c (mem_of_mem_dropTrailingZeros hmem)

theorem newline_notMem_positionalText {d : Decimal} (h : '\n' ∉ d.digits) (keepsFraction : Bool) :
    '\n' ∉ positionalText keepsFraction d := by
  have hzeros : ∀ n, '\n' ∉ List.replicate n '0' := fun n hmem =>
    absurd (List.mem_replicate.1 hmem).2 (by decide)
  have htake : ∀ n, '\n' ∉ d.digits.take n := fun n hmem => h (List.mem_of_mem_take hmem)
  rw [positionalText]
  split
  next => simp [hzeros, h]
  next =>
    dsimp only
    split
    next => split <;> simp [hzeros, htake]
    next fraction hfraction =>
      have hdrop : '\n' ∉ d.digits.drop (d.exponent.toNat + 1) := fun hmem =>
        h (List.mem_of_mem_drop hmem)
      simp [hzeros, htake, hdrop]

/-- A number in a message is one line. -/
theorem oneLine_write (x : Binary64) : OneLine (Layout.message.write x) := by
  have hmagnitude : ∀ d : Decimal, '\n' ∉ d.digits → '\n' ∉ positionalText false d :=
    fun d hd => newline_notMem_positionalText hd false
  have hdigits : '\n' ∉ (if x.pattern = 0 then ⟨['0'], 0⟩ else
      shortest Layout.message.tie x.pattern : Decimal).digits := by
    split
    next => decide
    next => exact newline_notMem_shortest _ _
  rw [Layout.write]
  split
  next => decide
  split
  next => split <;> decide
  next =>
    refine oneLine_ofList ?_
    have hshown := hmagnitude _ hdigits
    split
    next => exact List.not_mem_cons_of_ne_of_not_mem (by decide) hshown
    next => exact hshown

end Binary64

/-! ### Pieces of the source -/

/-- Whether the text of a token of the kind stands in quotes, where it can hold every character. -/
def Kind.isQuoted : Kind → Bool
  | .string | .identifier true => true
  | _ => false

theorem newline_notMem_takeWhile {p : Char → Bool} (hp : p '\n' = false) (cs : List Char) :
    '\n' ∉ cs.takeWhile p := by
  intro hmem
  rw [List.mem_takeWhile_imp hmem] at hp
  cases hp

/-- What stands behind a gap is not blank. -/
theorem Gap.isBlank_of_read {cs skipped rest : List Char} {c : Char}
    (h : read cs = .closed skipped (c :: rest)) : isBlank c = false := by
  have hafter : ∀ {front skipped : List Char} {g : Gap}, after front g = .closed skipped (c :: rest) →
      ∃ skipped, g = .closed skipped (c :: rest) := by
    intro front skipped g hg
    cases g with
    | closed s r => cases hg; exact ⟨s, rfl⟩
    | unclosed s r => cases hg
  fun_induction read cs generalizing skipped with
  | case1 => cases h
  | case2 d cs hblank ih =>
    obtain ⟨_, hread⟩ := hafter h
    exact ih hread
  | case3 d cs hblank hline ih =>
    obtain ⟨_, hread⟩ := hafter h
    exact ih hread
  | case4 d cs hblank hline hblock hend => cases h
  | case5 d cs hblank hline hblock comment more hend ih =>
    obtain ⟨_, hread⟩ := hafter h
    exact ih hread
  | case6 d cs hblank hline hblock =>
    cases h
    exact Bool.eq_false_iff.2 hblank

namespace Lexeme

/-- The lexeme is described in one line, unless its text stands in quotes. -/
def Fits (x : Lexeme) : Prop :=
  x.kind.isQuoted = false → OneLine (x.kind.describe (String.ofList x.body))

theorem fits_bad {p : Problem} (h : OneLine p.message) (body rest : List Char) :
    (bad p body rest).Fits := fun _ => h

theorem fits_plain {k : Kind} {body : List Char} (h : OneLine (k.describe (String.ofList body)))
    (rest : List Char) : (plain k body rest).Fits := fun _ => h

theorem fits_string (cs : List Char) : (string cs).Fits := by
  rw [string]
  split
  next => exact Bool.noConfusion
  next => exact fits_bad (by decide) _ _

theorem fits_quotedIdentifier (quote : Char) (cs : List Char) : (quotedIdentifier quote cs).Fits := by
  rw [quotedIdentifier]
  split
  next => exact fits_bad (by decide) _ _
  next => exact Bool.noConfusion
  next => exact fits_bad (by decide) _ _

theorem fits_blob (mark : Char) (cs : List Char) : (blob mark cs).Fits := by
  rw [blob]
  dsimp only
  split
  next => exact fits_bad (by decide) _ _
  split
  next =>
    split
    next =>
      intro _
      have hopening : OneLine "blob X'" := by decide
      have hdigits := oneLine_ofList (newline_notMem_takeWhile (p := isHexDigit) (by decide) cs)
      exact (hopening.append hdigits).append (by decide)
    next => exact fits_bad (by decide) _ _
  next => exact fits_bad (by decide) _ _

theorem fits_word (cs : List Char) : (word cs).Fits := by
  unfold word
  dsimp only
  split
  next w _ =>
    have hkeyword : OneLine "keyword " := by decide
    refine fits_plain ?_ _
    exact hkeyword.append w.oneLine_spelling
  next =>
    have hopening : OneLine "identifier `" := by decide
    have hname := oneLine_ofList (newline_notMem_takeWhile (p := continuesWord) (by decide +kernel) cs)
    refine fits_plain ?_ _
    exact (hopening.append hname).append (by decide)

theorem fits_namedParameter (cs : List Char) : (namedParameter cs).Fits := by
  intro _
  have hopening : OneLine "parameter :" := by decide
  have hname := oneLine_ofList (newline_notMem_takeWhile (p := continuesWord) (by decide +kernel) cs)
  exact hopening.append hname

theorem fits_sign {c : Char} (hc : c ≠ '\n') (cs : List Char) : (sign c cs).Fits := by
  rw [sign]
  split
  next spelling s _ =>
    have hquote : OneLine "`" := by decide
    refine fits_plain ?_ _
    exact (hquote.append s.oneLine_spelling).append hquote
  split
  next =>
    refine fits_plain ?_ _
    show OneLine "parameter ?"
    decide
  next =>
    have hwords : OneLine "Unexpected character: " := by decide
    have hcharacter : OneLine (String.singleton c) := by
      rw [OneLine, String.toList_singleton, List.mem_singleton]
      exact hc.symm
    refine fits_bad ?_ _ _
    exact hwords.append hcharacter

/-! ### Numerals -/

theorem oneLine_floatKind {text : List Char} (h : '\n' ∉ text) (digits : List Char) (exponent : Int)
    (shown : String) : OneLine ((floatKind text digits exponent).describe shown) := by
  unfold floatKind
  dsimp only
  split
  next =>
    have hfloat : OneLine "float " := by decide
    exact hfloat.append (Binary64.oneLine_write _)
  next =>
    have hwords : OneLine "Numeric literal out of range: " := by decide
    exact hwords.append (oneLine_ofList h)

theorem oneLine_integerKind (policy : OverflowPolicy) {digits : List Char} (h : '\n' ∉ digits) :
    OneLine ((integerKind policy digits).describe (String.ofList digits)) := by
  have hinteger : OneLine "integer " := by decide
  unfold integerKind
  dsimp only
  split
  next => exact hinteger.append (oneLine_toString_int _)
  split
  next => exact hinteger.append (oneLine_ofList h)
  cases policy with
  | promote => exact oneLine_floatKind h digits 0 _
  | reject =>
    have hwords : OneLine "Integer literal out of range: " := by decide
    exact hwords.append (oneLine_ofList h)

theorem fits_endNumeral {k : Kind} {text : List Char} (h : OneLine (k.describe (String.ofList text)))
    (cs : List Char) : (endNumeral k text cs).Fits := by
  unfold endNumeral
  split
  next =>
    split
    next => exact fits_bad (by decide) _ _
    next => exact fits_plain h _
  next => exact fits_plain h _

theorem newline_notMem_fraction (cs : List Char) : '\n' ∉ (fraction cs).1 := by
  unfold fraction
  split
  next d more =>
    split
    next hd =>
      have hmore := newline_notMem_takeWhile (p := Char.isDigit) (by decide) more
      have hne : '\n' ≠ d := by
        rintro rfl
        exact absurd hd (by decide)
      simp [hmore, hne]
    next => exact List.not_mem_nil
  next => exact List.not_mem_nil

theorem newline_notMem_exponentMark {cs mark rest : List Char}
    (h : exponentMark? cs = some (mark, rest)) : '\n' ∉ mark := by
  unfold exponentMark? at h
  split at h
  next c more =>
    split at h
    next hc =>
      have hne : '\n' ≠ c := by
        rintro rfl
        exact absurd hc (by decide)
      split at h <;> cases h <;> simp [hne]
    next => cases h
  next => cases h

theorem fits_behindFraction (policy : OverflowPolicy) {whole part : List Char} (hwhole : '\n' ∉ whole)
    (hpart : '\n' ∉ part) (cs : List Char) : (behindFraction policy whole part cs).Fits := by
  rw [behindFraction]
  split
  next mark rest hmark =>
    dsimp only
    split
    next => exact fits_bad (by decide) _ _
    next =>
      have hdigits := newline_notMem_takeWhile (p := Char.isDigit) (by decide) rest
      refine fits_endNumeral (oneLine_floatKind ?_ _ _ _) _
      simp [hwhole, hpart, hdigits, newline_notMem_exponentMark hmark]
  next =>
    split
    next => exact fits_endNumeral (oneLine_integerKind policy hwhole) cs
    next =>
      refine fits_endNumeral (oneLine_floatKind ?_ _ _ _) cs
      simp [hwhole, hpart]

theorem fits_hexadecimal (mark cs : List Char) : (hexadecimal mark cs).Fits := by
  unfold hexadecimal
  dsimp only
  split
  next => exact fits_bad (by decide) _ _
  split
  next =>
    have hwords : OneLine "Hexadecimal literal too large: 0x" := by decide
    have hdigits := oneLine_ofList (newline_notMem_takeWhile (p := isHexDigit) (by decide) cs)
    refine fits_bad ?_ _ _
    exact hwords.append hdigits
  next =>
    have hinteger : OneLine "integer " := by decide
    refine fits_plain ?_ _
    exact hinteger.append (oneLine_toString_int _)

theorem fits_numeral (policy : OverflowPolicy) (cs : List Char) : (numeral policy cs).Fits := by
  unfold numeral
  split
  next => exact fits_hexadecimal _ _
  next => exact fits_hexadecimal _ _
  next =>
    exact fits_behindFraction policy (newline_notMem_takeWhile (by decide) cs)
      (newline_notMem_fraction _) _

/-- Only between quotes a lexeme takes newlines into its text. -/
theorem fits_read (policy : OverflowPolicy) {c : Char} (hc : c ≠ '\n') (cs : List Char) :
    (read policy c cs).Fits := by
  rw [read]
  split
  next => exact fits_string cs
  split
  next => exact fits_quotedIdentifier c cs
  split
  next => exact fits_blob c cs.tail
  split
  next => exact fits_numeral policy (c :: cs)
  split
  next => exact fits_word (c :: cs)
  split
  next => exact fits_namedParameter cs
  exact fits_sign hc cs

end Lexeme

/-! ### Tokens and failures -/

namespace Lexer

theorem oneLine_describe_next (l : Lexer) (h : l.next.1.kind.isQuoted = false) :
    OneLine l.next.1.describe := by
  cases hread : Gap.read l.rest with
  | unclosed skipped comment =>
    rw [next_of_unclosed hread]
    show OneLine "Unterminated block comment"
    decide
  | closed skipped rest =>
    cases rest with
    | nil =>
      rw [next_of_end hread]
      show OneLine Diagnostic.endOfInput
      decide
    | cons c cs =>
      have hc : c ≠ '\n' := by
        rintro rfl
        have hblank := Gap.isBlank_of_read hread
        exact absurd hblank (by decide)
      rw [next_of_lexeme hread] at h ⊢
      exact Lexeme.fits_read l.policy hc cs h

theorem oneLine_describe {l : Lexer} {t : Token} (ht : t ∈ l.tokens)
    (h : t.kind.isQuoted = false) : OneLine t.describe := by
  induction l using tokens_induction with
  | hend l hend =>
    rw [tokens_of_end hend, List.mem_singleton] at ht
    rw [ht] at h ⊢
    exact l.oneLine_describe_next h
  | hnext l hend ih =>
    rw [tokens_of_not_end hend] at ht
    rcases List.mem_cons.1 ht with rfl | ht
    · exact l.oneLine_describe_next h
    · exact ih ht

end Lexer

namespace Failure

/-- The failure is about a token in quotes, and a newline stands between them. -/
def RepeatsNewline : Failure → Prop
  | .unexpected _ t => t.kind.isQuoted = true ∧ ¬ OneLine t.text
  | _ => False

/-- What is said about a token in quotes repeats its text. -/
theorem oneLine_describe_iff {t : Token} (h : t.kind.isQuoted = true) :
    OneLine t.describe ↔ OneLine t.text := by
  have hframe : ∀ {opening closing : String}, OneLine opening → OneLine closing →
      (OneLine (opening ++ t.text ++ closing) ↔ OneLine t.text) := by
    intro opening closing hopening hclosing
    rw [oneLine_append_iff, oneLine_append_iff]
    exact ⟨fun hall => hall.1.2, fun htext => ⟨⟨hopening, htext⟩, hclosing⟩⟩
  rw [Token.describe]
  cases hkind : t.kind with
  | string => exact hframe (by decide) (by decide)
  | identifier quoted => exact hframe (by decide) (by decide)
  | _ =>
    rw [hkind] at h
    cases h

variable {settings : Settings} {source : String} {e : Failure}

/-- A message is one line, unless it repeats a newline. -/
theorem oneLine_message_iff (h : e.Justified settings (tokenize settings.overflow source)) :
    OneLine e.diagnostic.message ↔ ¬ e.RepeatsNewline := by
  cases e with
  | lexical p t =>
    obtain ⟨⟨i, hnumber, _⟩, hkind⟩ := h
    have ht : t ∈ tokenize settings.overflow source := List.mem_of_getElem? hnumber
    refine iff_of_true ?_ not_false
    show OneLine p.message
    rcases hkind with hkind | ⟨_, hkind, rfl⟩
    · have hdescribe := Lexer.oneLine_describe ht (by rw [hkind]; rfl)
      rwa [Token.describe, hkind] at hdescribe
    · have hdescribe := Lexer.oneLine_describe ht (by rw [hkind]; rfl)
      rw [Token.describe, hkind] at hdescribe
      have hwords : OneLine "Integer literal out of range: " := by decide
      exact hwords.append (oneLine_ofList (oneLine_append_iff.1 hdescribe).2)
  | tooDeep limit t =>
    refine iff_of_true ?_ not_false
    have hwords : OneLine "Maximum nesting depth of " := by decide
    exact (hwords.append (oneLine_toString limit)).append (by decide)
  | unexpected expectation t =>
    obtain ⟨⟨i, hnumber, _⟩, _⟩ := h
    have ht : t ∈ tokenize settings.overflow source := List.mem_of_getElem? hnumber
    rw [diagnostic]
    split
    next hend =>
      have hwords : OneLine "Unexpected end of input: expected " := by decide
      refine iff_of_true (hwords.append expectation.oneLine_text) ?_
      rintro ⟨hquoted, _⟩
      rw [eq_of_beq hend] at hquoted
      cases hquoted
    next =>
      have hwords : OneLine "Unexpected token: expected " := by decide
      have hfound := (hwords.append expectation.oneLine_text).append (b := ", found ") (by decide)
      have hmessage : OneLine (Diagnostic.unexpected expectation.text t.describe t.span).message ↔
          OneLine t.describe := by
        show OneLine ("Unexpected token: expected " ++ expectation.text ++ ", found " ++ t.describe) ↔ _
        rw [oneLine_append_iff]
        exact and_iff_right hfound
      rw [hmessage]
      by_cases hquoted : t.kind.isQuoted = true
      · rw [oneLine_describe_iff hquoted]
        exact ⟨fun htext hrepeats => hrepeats.2 htext, fun hrepeats => by_contra fun htext =>
          hrepeats ⟨hquoted, htext⟩⟩
      · refine iff_of_true (Lexer.oneLine_describe ht (Bool.eq_false_iff.2 hquoted)) ?_
        exact fun hrepeats => hquoted hrepeats.1

end Failure

/-! ### Five lines -/

namespace Diagnostic

variable (d : Diagnostic) (source : String)

/-- The annotated form has its five lines: a header, a location, an empty gutter, a line of the source
and the carets below it. -/
structure LaidOut (annotated : String) : Prop where
  annotate : d.annotate source = .ok annotated
  newlines : annotated.toList.count '\n' = 4
  last : annotated.toList.getLast? ≠ some '\n'
  lines : annotated.toList.splitOn '\n' = (d.annotationLines source).map String.toList

theorem oneLine_header_iff : OneLine d.header ↔ OneLine d.message := by
  rw [header, oneLine_append_iff, oneLine_append_iff]
  have hlabel : OneLine d.stage.label := by
    cases d.stage <;> decide
  have herror : OneLine " error: " := by decide
  exact and_iff_right ⟨hlabel, herror⟩

/-- The carets stand in the last line, which is not empty. -/
theorem getLast?_annotationLines (text : List Char) (h : text.splitOn '\n' =
    d.header.toList.splitOn '\n' ++ (d.annotationLines source).tail.map String.toList) :
    text.getLast? ≠ some '\n' := by
  intro hlast
  obtain ⟨front, rfl⟩ := List.getLast?_eq_some_iff.1 hlast
  rw [splitOn_append_newline] at h
  have hlines := congrArg List.getLast? h
  simp [annotationLines] at hlines

/-- An annotated form has its five lines as long as it can be shown and its message is one line. -/
theorem exists_laidOut_iff : (∃ annotated, d.LaidOut source annotated) ↔
    (d.position source).column ≤ widestPadding + 1 ∧ OneLine d.message := by
  have hsplit := d.splitOn_annotationLines source
  rw [← d.oneLine_header_iff]
  constructor
  · rintro ⟨annotated, hannotate, hnewlines, _, _⟩
    have hcolumn : (d.position source).column ≤ widestPadding + 1 := by
      by_contra hlt
      rw [d.annotate_of_lt source (Nat.not_le.1 hlt)] at hannotate
      cases hannotate
    rw [d.annotate_of_le source hcolumn] at hannotate
    cases hannotate
    have hlength := congrArg List.length hsplit
    rw [length_splitOn, hnewlines, List.length_append, length_splitOn] at hlength
    have hfour : ((d.annotationLines source).tail.map String.toList).length = 4 := rfl
    exact ⟨hcolumn, List.count_eq_zero.1 (by omega)⟩
  · rintro ⟨hcolumn, hheader⟩
    have hlines : (d.annotationLines source).map String.toList =
        [d.header.toList] ++ (d.annotationLines source).tail.map String.toList := rfl
    have hlast := d.getLast?_annotationLines source _ hsplit
    rw [splitOn_of_notMem hheader, ← hlines] at hsplit
    have hlength := congrArg List.length hsplit
    rw [length_splitOn] at hlength
    have hfive : ((d.annotationLines source).map String.toList).length = 5 := rfl
    exact ⟨_, d.annotate_of_le source hcolumn, by omega, hlast, hsplit⟩

end Diagnostic

open Lockstep Statement

theorem Session.run_eq_error {α : Type} {session : Session} {rule : Rule α} {e : Failure}
    (h : (session.run rule).1 = .error e) : ∃ s', rule session.state = .error e s' := by
  rw [Session.run] at h
  cases hrun : rule session.state with
  | error e' s' =>
    rw [hrun] at h
    cases h
    exact ⟨s', rfl⟩
  | ok a s' =>
    rw [hrun] at h
    cases h

/-- A refused statement is annotated in five lines exactly if padding reaches the place of the refusal
and the refusal is not about a token in quotes with a newline between them. -/
theorem annotate_laidOut_iff (settings : Settings) (source : String) (e : Failure)
    (h : parse settings source = .error e) :
    (∃ annotated, e.diagnostic.LaidOut source annotated) ↔
      (e.diagnostic.position source).column ≤ Diagnostic.widestPadding + 1 ∧ ¬ e.RepeatsNewline := by
  obtain ⟨s', hrun⟩ := Session.run_eq_error h
  have hjustified := justified_of_agrees hrun (agrees_single whole_alone
    (contexts_spelled settings source _) (meet_spelled settings source) rfl (Nat.lt_succ_self _))
  rw [e.diagnostic.exists_laidOut_iff source, Failure.oneLine_message_iff hjustified]

theorem annotate_laidOut_end :
    ∃ e annotated, parse {} "SELECT 1 +" = .error e ∧ e.diagnostic.LaidOut "SELECT 1 +" annotated := by
  have hparse : parse {} "SELECT 1 +" = .error (.unexpected .expression (.endAt 10)) := by
    decide +kernel
  have hcolumn : ((Failure.unexpected .expression (.endAt 10)).diagnostic.position "SELECT 1 +").column ≤
      Diagnostic.widestPadding + 1 := by decide
  obtain ⟨annotated, hlaid⟩ := (annotate_laidOut_iff {} "SELECT 1 +" _ hparse).2
    ⟨hcolumn, fun hrepeats => Bool.noConfusion hrepeats.1⟩
  exact ⟨_, annotated, hparse, hlaid⟩

/-- A string over two lines makes the header two lines long. -/
theorem annotate_quoted_newline :
    ∃ e annotated, parse {} "SELECT 1 'a\nb'" = .error e ∧
      e.diagnostic.annotate "SELECT 1 'a\nb'" = .ok annotated ∧ annotated.toList.count '\n' = 5 := by
  have hparse : parse {} "SELECT 1 'a\nb'" =
      .error (.unexpected .endOfInput ⟨.string, ⟨10, 13⟩, "a\nb"⟩) := by decide +kernel
  exact ⟨_, _, hparse, rfl, by decide +kernel⟩

end TaggedSql
