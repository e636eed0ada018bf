import TaggedSql.Proofs.Token.Source

/-!
# Tokens under the two policies

The policy for great integers decides about the kinds of tokens only, and only about one sort of
them: what is misspelled under the rejecting policy, a run of decimal digits beyond `2 ^ 63`, is a
double-precision number under the promoting one, unless it is too great even for that.

* `Text.DecimalFrom`: a run of decimal digits with a least value;
* `Text.isScaled`: the spelling of a number with a fraction or an exponent;
* `Kind.Weighed`: the kinds that one text has under the two policies;
* `forall₂_weighed_tokenize`: so it is with all tokens of a source.

Under the rejecting policy a number is read in double precision exactly if it is spelled with a
fraction or an exponent.
-/

namespace TaggedSql

namespace Text

/-- A run of decimal digits that spells `least` or a greater number. -/
structure DecimalFrom (least : Nat) (cs : List Char) : Prop where
  digits : ∀ c ∈ cs, c.isDigit = true
  le : least ≤ decimalNumber cs

/-- Whether the text is what follows the whole part of a number that has a fraction or an exponent. -/
def startsScale : List Char → Bool
  | '.' :: _ | 'e' :: _ | 'E' :: _ => true
  | _ => false

/-- Whether a number with the spelling is written with a fraction or an exponent. -/
def isScaled (cs : List Char) : Bool := startsScale (cs.dropWhile Char.isDigit)

theorem isScaled_append {whole more : List Char} (hwhole : ∀ c ∈ whole, c.isDigit = true)
    (hmore : startsScale more = true) : isScaled (whole ++ more) = true := by
  have hstop : more.dropWhile Char.isDigit = more := by
    unfold startsScale at hmore
    split at hmore
    next => rfl
    next => rfl
    next => rfl
    next => cases hmore
  rw [isScaled, List.dropWhile_append_of_pos hwhole, hstop]
  exact hmore

/-- Digits alone are no number with a fraction or an exponent. -/
theorem isScaled_digits {cs : List Char} (h : ∀ c ∈ cs, c.isDigit = true) : isScaled cs = false := by
  rw [isScaled, List.dropWhile_eq_nil_iff.2 h]
  rfl

end Text

open Text

/-! ### Kinds -/

namespace Kind

/-- Whether a token of the kind is a number. -/
def isNumber : Kind → Bool
  | .integer _ | .leastMagnitude | .float _ => true
  | _ => false

/-- Whether a token of the kind is a double-precision number. -/
def isFloat : Kind → Bool
  | .float _ => true
  | _ => false

/-- The kinds that a text has under the rejecting and under the promoting policy. -/
inductive Promoted (text : List Char) : Kind → Kind → Prop where
  | same (k : Kind) : Promoted text k k
  | changed (h : DecimalFrom (2 ^ 63) text) :
      Promoted text (.problem (.integerRange text)) (Lexeme.floatKind text text 0)

/-- What is known of the kinds of a text under the two policies. -/
structure Weighed (text : List Char) (k l : Kind) : Prop where
  promoted : Promoted text k l
  least : k = .leastMagnitude → DecimalFrom (2 ^ 63) text
  /-- The numbers in double precision are those with a fraction or an exponent. -/
  scaled : k.isNumber = true → isScaled text = k.isFloat

variable {text : List Char}

/-- The policy says nothing about what is no number. -/
theorem weighed_of_not_isNumber {k : Kind} (h : k.isNumber = false) : Weighed text k k where
  promoted := .same k
  least hk := by
    rw [hk] at h
    cases h
  scaled hk := absurd (h.symm.trans hk) Bool.false_ne_true

theorem weighed_floatKind (h : isScaled text = true) (digits : List Char) (exponent : Int) :
    Weighed text (Lexeme.floatKind text digits exponent)
      (Lexeme.floatKind text digits exponent) := by
  unfold Lexeme.floatKind
  dsimp only
  split
  next => exact ⟨.same _, Kind.noConfusion, fun _ => h⟩
  next => exact weighed_of_not_isNumber rfl

theorem weighed_integerKind (h : ∀ c ∈ text, c.isDigit = true) :
    Weighed text (Lexeme.integerKind .reject text) (Lexeme.integerKind .promote text) := by
  unfold Lexeme.integerKind
  dsimp only
  split
  next => exact ⟨.same _, Kind.noConfusion, fun _ => isScaled_digits h⟩
  next hless =>
    have hfrom : DecimalFrom (2 ^ 63) text := ⟨h, Nat.le_of_not_lt hless⟩
    split
    next => exact ⟨.same _, fun _ => hfrom, fun _ => isScaled_digits h⟩
    next => exact ⟨.changed hfrom, Kind.noConfusion, Bool.noConfusion⟩

theorem Promoted.eq_or {k l : Kind} (h : Promoted text k l) :
    k = l ∨ k = .problem (.integerRange text) ∧ l = Lexeme.floatKind text text 0 ∧
      DecimalFrom (2 ^ 63) text := by
  cases h with
  | same => exact .inl rfl
  | changed h => exact .inr ⟨rfl, rfl, h⟩

/-- Under neither policy a text is the end of a source unless it is so under both. -/
theorem Promoted.isEnd_iff {k l : Kind} (h : Promoted text k l) :
    k = .endOfInput ↔ l = .endOfInput := by
  cases h with
  | same => exact Iff.rfl
  | changed =>
    unfold Lexeme.floatKind
    dsimp only
    split <;> exact ⟨Kind.noConfusion, Kind.noConfusion⟩

end Kind

/-! ### Lexemes -/

namespace Lexeme

/-- The lexemes that are read at one place under the two policies differ at most in their kinds. -/
structure Weighed (x y : Lexeme) : Prop where
  frame : y = { x with kind := y.kind }
  kind : Kind.Weighed x.body x.kind y.kind

theorem Weighed.refl {x : Lexeme} (h : x.kind.isNumber = false) : x.Weighed x :=
  ⟨rfl, Kind.weighed_of_not_isNumber h⟩

theorem weighed_endNumeral {k l : Kind} {text : List Char} (h : Kind.Weighed text k l)
    (cs : List Char) : (endNumeral k text cs).Weighed (endNumeral l text cs) := by
  unfold endNumeral
  split
  next =>
    split
    next => exact .refl rfl
    next => exact ⟨rfl, h⟩
  next => exact ⟨rfl, h⟩

theorem fraction_eq_nil_or (cs : List Char) :
    (fraction cs).1 = [] ∨ startsScale (fraction cs).1 = true := by
  unfold fraction
  split
  next =>
    split
    next => exact .inr rfl
    next => exact .inl rfl
  next => exact .inl rfl

theorem startsScale_of_exponentMark? {cs mark rest : List Char}
    (h : exponentMark? cs = some (mark, rest)) (more : List Char) :
    startsScale (mark ++ more) = true := by
  unfold exponentMark? at h
  split at h
  next c _ =>
    split at h
    next hc =>
      have hmark : ∃ sign, mark = c :: sign := by
        split at h <;> cases h <;> exact ⟨_, rfl⟩
      obtain ⟨sign, rfl⟩ := hmark
      rcases hc with rfl | rfl <;> rfl
    next => cases h
  next => cases h

theorem startsScale_append {cs : List Char} (h : startsScale cs = true) (more : List Char) :
    startsScale (cs ++ more) = true := by
  unfold startsScale at h
  split at h
  next => rfl
  next => rfl
  next => rfl
  next => cases h

theorem weighed_behindFraction {whole part : List Char} (hwhole : ∀ c ∈ whole, c.isDigit = true)
    (hpart : part = [] ∨ startsScale part = true) (cs : List Char) :
    (behindFraction .reject whole part cs).Weighed (behindFraction .promote whole part cs) := by
  unfold behindFraction
  split
  next mark rest hmark =>
    dsimp only
    split
    next => exact .refl rfl
    next =>
      refine weighed_endNumeral (Kind.weighed_floatKind ?_ _ _) _
      rw [List.append_assoc, List.append_assoc]
      refine isScaled_append hwhole ?_
      have hexponent := startsScale_of_exponentMark? hmark (rest.takeWhile Char.isDigit)
      rcases hpart with rfl | hpart
      · exact hexponent
      · exact startsScale_append hpart _
  next =>
    split
    next => exact weighed_endNumeral (Kind.weighed_integerKind hwhole) cs
    next hne =>
      refine weighed_endNumeral (Kind.weighed_floatKind ?_ _ _) cs
      exact isScaled_append hwhole (hpart.resolve_left hne)

/-- A hexadecimal number has neither fraction nor exponent, even where it has the digit `e`. -/
theorem weighed_hexadecimal {x : Char} (hx : x = 'x' ∨ x = 'X') (cs : List Char) :
    (hexadecimal ['0', x] cs).Weighed (hexadecimal ['0', x] cs) := by
  unfold hexadecimal
  dsimp only
  split
  next => exact .refl rfl
  split
  next => exact .refl rfl
  next =>
    refine ⟨rfl, .same _, Kind.noConfusion, fun _ => ?_⟩
    rcases hx with rfl | rfl <;> rfl

theorem weighed_numeral (cs : List Char) : (numeral .reject cs).Weighed (numeral .promote cs) := by
  unfold numeral
  split
  next => exact weighed_hexadecimal (.inl rfl) _
  next => exact weighed_hexadecimal (.inr rfl) _
  next => exact weighed_behindFraction (fun _ => List.mem_takeWhile_imp) (fraction_eq_nil_or _) _

theorem isNumber_string (cs : List Char) : (string cs).kind.isNumber = false := by
  unfold string
  split <;> rfl

theorem isNumber_quotedIdentifier (quote : Char) (cs : List Char) :
    (quotedIdentifier quote cs).kind.isNumber = false := by
  unfold quotedIdentifier
  split <;> rfl

theorem isNumber_blob (mark : Char) (cs : List Char) : (blob mark cs).kind.isNumber = false := by
  unfold blob
  split
  next => rfl
  split
  next =>
    dsimp only
    split <;> rfl
  next => rfl

theorem isNumber_word (cs : List Char) : (word cs).kind.isNumber = false := by
  unfold word
  dsimp only
  cases Word.ofText? (cs.takeWhile continuesWord) <;> rfl

theorem isNumber_sign (c : Char) (cs : List Char) : (sign c cs).kind.isNumber = false := by
  unfold sign
  split
  next => rfl
  split <;> rfl

theorem weighed_read (c : Char) (cs : List Char) : (read .reject c cs).Weighed (read .promote c cs) := by
  unfold read
  split
  next => exact .refl (isNumber_string cs)
  split
  next => exact .refl (isNumber_quotedIdentifier c cs)
  split
  next => exact .refl (isNumber_blob c cs.tail)
  split
  next => exact weighed_numeral (c :: cs)
  split
  next => exact .refl (isNumber_word _)
  split
  next => exact .refl rfl
  next => exact .refl (isNumber_sign c cs)

end Lexeme

/-! ### Tokens -/

/-- The tokens that are read at one place under the two policies. -/
structure Token.Weighed (t u : Token) : Prop where
  span : u.span = t.span
  text : u.text = t.text
  kind : Kind.Weighed t.text.toList t.kind u.kind

namespace Token.Weighed

variable {t u : Token}

theorem refl (h : t.kind.isNumber = false) : t.Weighed t :=
  ⟨rfl, rfl, Kind.weighed_of_not_isNumber h⟩

theorem eq_of_kind (h : t.Weighed u) (hkind : t.kind = u.kind) : t = u := by
  cases t
  cases u
  obtain ⟨rfl, rfl, _⟩ := h
  cases hkind
  rfl

theorem isEnd_eq (h : t.Weighed u) : t.isEnd = u.isEnd := by
  rw [Bool.eq_iff_iff, Token.isEnd, Token.isEnd, beq_iff_eq, beq_iff_eq]
  exact h.kind.promoted.isEnd_iff

end Token.Weighed

namespace Lexer

/-- The lexer at the same place under the promoting policy. -/
def promoting (l : Lexer) : Lexer := { l with policy := .promote }

variable {l : Lexer}

/-- Under both policies the token at a place takes the same characters. -/
theorem next_weighed (h : l.policy = .reject) :
    l.next.1.Weighed l.promoting.next.1 ∧ l.promoting.next.2 = l.next.2.promoting := by
  cases hread : Gap.read l.rest with
  | unclosed skipped comment =>
    rw [next_of_unclosed hread, next_of_unclosed (l := l.promoting) hread]
    exact ⟨.refl rfl, rfl⟩
  | closed skipped rest =>
    cases rest with
    | nil =>
      rw [next_of_end hread, next_of_end (l := l.promoting) hread]
      exact ⟨.refl rfl, rfl⟩
    | cons c cs =>
      obtain ⟨hframe, hkind⟩ := Lexeme.weighed_read c cs
      rw [next_of_lexeme hread, next_of_lexeme (l := l.promoting) hread, h]
      show Token.Weighed _ (l.promoting.lexemeToken skipped (Lexeme.read .promote c cs)) ∧ _
      rw [show l.promoting.policy = .promote from rfl, hframe]
      exact ⟨⟨rfl, rfl, by simpa [lexemeToken] using hkind⟩, rfl⟩

theorem forall₂_weighed_tokens (h : l.policy = .reject) :
    List.Forall₂ Token.Weighed l.tokens l.promoting.tokens := by
  induction l using tokens_induction with
  | hend l hend =>
    have hnext := (next_weighed h).1
    rw [tokens_of_end hend, tokens_of_end (hnext.isEnd_eq.symm.trans hend)]
    exact .cons hnext .nil
  | hnext l hend ih =>
    obtain ⟨hnext, hrest⟩ := next_weighed h
    rw [tokens_of_not_end hend, tokens_of_not_end (hnext.isEnd_eq.symm.trans hend), hrest]
    exact .cons hnext (ih ((policy_next l).trans h))

end Lexer

/-- The tokens of a source under the two policies. -/
theorem forall₂_weighed_tokenize (source : String) :
    List.Forall₂ Token.Weighed (tokenize .reject source) (tokenize .promote source) :=
  Lexer.forall₂_weighed_tokens rfl

/-! ### Numbers with a fraction or an exponent -/

/-- Whether a token is a number that is written with a fraction or an exponent. -/
def Token.isScaled (t : Token) : Bool := t.kind.isNumber && Text.isScaled t.text.toList

theorem Token.Weighed.isScaled_eq {t u : Token} (h : t.Weighed u) : t.isScaled = t.kind.isFloat := by
  rw [Token.isScaled]
  cases hnumber : t.kind.isNumber with
  | true => exact h.kind.scaled hnumber
  | false =>
    cases hkind : t.kind with
    | float x =>
      rw [hkind] at hnumber
      cases hnumber
    | _ => rfl

/-- Under the rejecting policy the numbers in double precision are those that are written so. -/
theorem countP_isScaled_tokenize (source : String) :
    (tokenize .reject source).countP Token.isScaled =
      (tokenize .reject source).countP fun t => t.kind.isFloat := by
  have h := forall₂_weighed_tokenize source
  generalize tokenize .reject source = ts, tokenize .promote source = us at h ⊢
  induction h with
  | nil => rfl
  | cons ht _ ih => rw [List.countP_cons, List.countP_cons, ih, ht.isScaled_eq]

end TaggedSql
