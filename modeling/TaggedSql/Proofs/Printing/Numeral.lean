import TaggedSql.Proofs.Printing.Spelling

/-!
# The spelling of numbers

A natural number below `2 ^ 63` is spelled by its decimal digits. A double-precision number has many
spellings: digits with a point, an exponent, or both. `FloatLiteral` is any of them whose value is
finite; every finite number that is not negative has one, the decimal that equals it.

* `Piece.integer`, `Piece.float`: the pieces of both;
* `FloatLiteral.exists_value_eq`: every finite number that is not negative is spelled by a literal.
-/

namespace TaggedSql

open Text Lexeme

/-! ### Runs of digits -/

theorem ofDigits_append (base : Nat) (cs : List Char) (c : Char) :
    ofDigits base (cs ++ [c]) = ofDigits base cs * base + (digitValue? c).getD 0 := by
  simp [ofDigits]

theorem digitValue?_digitChar {n : Nat} (h : n < 10) : digitValue? n.digitChar = some n := by
  have hall : ∀ n < 10, digitValue? n.digitChar = some n := by decide
  exact hall n h

/-- The decimal digits of a number spell the number. -/
theorem decimalNumber_toDigits (n : Nat) : decimalNumber (Nat.toDigits 10 n) = n := by
  induction n using Nat.strongRecOn with
  | ind n ih =>
    rw [Nat.toDigits_eq_if (by decide)]
    split
    next h => simp [decimalNumber, ofDigits, digitValue?_digitChar h]
    next h =>
      have hlt : n / 10 < n := Nat.div_lt_self (by omega) (by decide)
      rw [decimalNumber, ofDigits_append, digitValue?_digitChar (Nat.mod_lt n (by decide))]
      have hquot : ofDigits 10 (Nat.toDigits 10 (n / 10)) = n / 10 := ih (n / 10) hlt
      rw [hquot]
      show n / 10 * 10 + n % 10 = n
      omega

/-! ### Reading decimal numerals -/

theorem ne_of_isDigit {c d : Char} (h : c.isDigit = true) (hd : d.isDigit = false) : c ≠ d := by
  rintro rfl
  rw [h] at hd
  cases hd

/-- A numeral that cannot be taken for a hexadecimal one is read as a decimal. -/
theorem read_decimal (policy : OverflowPolicy) {c : Char} {cs : List Char}
    (hstart : c.isDigit = true ∨ c = '.' ∧ cs.head?.any Char.isDigit = true)
    (hsecond : cs.head? ≠ some 'x' ∧ cs.head? ≠ some 'X') :
    Lexeme.read policy c cs = decimal policy (c :: cs) := by
  have hne : ∀ x : Char, x.isDigit = false → x ≠ '.' → c ≠ x := by
    intro x hx hpoint
    rcases hstart with h | ⟨rfl, _⟩
    · exact ne_of_isDigit h hx
    · exact fun h => hpoint h.symm
  rw [Lexeme.read, if_neg (hne _ (by decide) (by decide)),
    if_neg (by simp [hne '\x22' (by decide) (by decide), hne '\x60' (by decide) (by decide)]),
    if_neg (by simp [hne 'X' (by decide) (by decide), hne 'x' (by decide) (by decide)]),
    if_pos hstart]
  unfold numeral
  split
  next more h => cases h; exact absurd rfl hsecond.1
  next more h => cases h; exact absurd rfl hsecond.2
  next => rfl

/-- A text that begins with a digit or a point is no gap. -/
theorem gap_decimal {c : Char} {cs : List Char} (h : c.isDigit = true ∨ c = '.') :
    Gap.read (c :: cs) = .closed [] (c :: cs) := by
  refine Gap.read_of_isAbsent ?_
  have hblank : isBlank c = false := by
    rcases h with h | rfl
    · rw [Char.isDigit_iff_toNat] at h
      obtain ⟨hlow, hhigh⟩ := h
      have h0 : '0'.toNat = 48 := rfl
      have h9 : '9'.toNat = 57 := rfl
      have hall : ∀ n < 58, 48 ≤ n → Interval.covers blankIntervals n = false := by decide
      exact hall c.toNat (by omega) (by omega)
    · decide
  have hline : c ≠ '-' := by
    rcases h with h | rfl
    · exact ne_of_isDigit h (by decide)
    · decide
  have hblock : c ≠ '/' := by
    rcases h with h | rfl
    · exact ne_of_isDigit h (by decide)
    · decide
  simp [Gap.isAbsent, hblank, hline, hblock]

theorem endNumeral_ended {kind : Kind} {text more : List Char} (h : Ended more) :
    endNumeral kind text more = plain kind text more := by
  have hspace : spoilsNumeral ' ' = false := by decide
  rcases h with rfl | ⟨more, rfl⟩
  · rfl
  · rw [endNumeral, hspace]
    rfl

theorem exponentMark?_ended {more : List Char} (h : Ended more) : exponentMark? more = none := by
  rcases h with rfl | ⟨more, rfl⟩
  · rfl
  · rfl

theorem fraction_ended {more : List Char} (h : Ended more) : fraction more = ([], more) := by
  rcases h with rfl | ⟨more, rfl⟩
  · rfl
  · rfl

/-! ### Integers -/

/-- A run of decimal digits is read whole, and the policy decides about its kind. -/
theorem read_digits (policy : OverflowPolicy) {c : Char} {cs more : List Char}
    (hdigits : ∀ d ∈ c :: cs, d.isDigit = true) (hmore : Ended more) :
    Lexeme.read policy c (cs ++ more) = plain (integerKind policy (c :: cs)) (c :: cs) more := by
  have hspace : Char.isDigit ' ' = false := by decide
  have hc : c.isDigit = true := hdigits c List.mem_cons_self
  have hsecond : ∀ x : Char, x.isDigit = false → x ≠ ' ' → (cs ++ more).head? ≠ some x := by
    intro x hx hblank
    cases cs with
    | nil => exact hmore.head?_ne hblank
    | cons d ds =>
      have hd := hdigits d (by simp)
      simpa using ne_of_isDigit hd hx
  have htake : (c :: (cs ++ more)).takeWhile Char.isDigit = c :: cs :=
    hmore.takeWhile_append hspace hdigits
  have hdrop : (c :: (cs ++ more)).dropWhile Char.isDigit = more :=
    hmore.dropWhile_append hspace hdigits
  rw [read_decimal policy (.inl hc)
    ⟨hsecond 'x' (by decide) (by decide), hsecond 'X' (by decide) (by decide)⟩, decimal, htake,
    hdrop, fraction_ended hmore, behindFraction, exponentMark?_ended hmore]
  simp only [if_true, endNumeral_ended hmore]

/-- The piece of a natural number below `2 ^ 63`. -/
def Piece.integer (n : Nat) (h : n < 2 ^ 63) : Piece where
  kind := .integer (Int64.ofNat n)
  opening := []
  body := Nat.toDigits 10 n
  closing := []
  reads := by
    intro policy more hmore
    have hdigits : ∀ c ∈ Nat.toDigits 10 n, c.isDigit = true := fun c hc =>
      Nat.isDigit_of_mem_toDigits (by decide) (by decide) hc
    cases hcons : Nat.toDigits 10 n with
    | nil => exact absurd hcons Nat.toDigits_ne_nil
    | cons c cs =>
      rw [hcons] at hdigits
      have hc : c.isDigit = true := hdigits c List.mem_cons_self
      have hnumber : decimalNumber (c :: cs) = n := by rw [← hcons, decimalNumber_toDigits]
      refine ⟨c, cs ++ more, by simp, gap_decimal (.inl hc), ?_⟩
      rw [read_digits policy hdigits hmore]
      simp only [integerKind, Nat.pow_eq, hnumber, h, if_true]
      rfl
  proper := by simp
  plain h := by cases h

/-! ### Double-precision numbers -/

/-- The mark of an exponent, its sign included, and the digits behind it. -/
structure Exponent where
  mark : List Char
  digits : List Char
  isMark : mark ∈ [['e'], ['e', '+'], ['e', '-'], ['E'], ['E', '+'], ['E', '-']]
  isDigits : ∀ c ∈ digits, c.isDigit = true
  digits_ne_nil : digits ≠ []

/-- A decimal numeral with a fraction or an exponent whose value is finite. -/
structure FloatLiteral where
  whole : List Char
  fraction : List Char
  exponent : Option Exponent
  isDigits : ∀ c ∈ whole ++ fraction, c.isDigit = true
  digits_ne_nil : whole ++ fraction ≠ []
  marked : fraction ≠ [] ∨ exponent.isSome = true
  finite : (Binary64.ofDecimal (decimalNumber (whole ++ fraction))
    ((exponent.elim 0 fun e => exponentValue e.mark e.digits) - fraction.length)).isFinite = true

namespace FloatLiteral

/-- The decimal exponent of the last digit. -/
def lastExponent (l : FloatLiteral) : Int :=
  (l.exponent.elim 0 fun e => exponentValue e.mark e.digits) - l.fraction.length

/-- The number that a literal spells. -/
def value (l : FloatLiteral) : Binary64 :=
  Binary64.ofDecimal (decimalNumber (l.whole ++ l.fraction)) l.lastExponent

/-- The point and the digits behind it. -/
def part (l : FloatLiteral) : List Char := if l.fraction = [] then [] else '.' :: l.fraction

/-- The mark of the exponent and its digits. -/
def exponentText (l : FloatLiteral) : List Char := l.exponent.elim [] fun e => e.mark ++ e.digits

/-- The characters of a literal. -/
def text (l : FloatLiteral) : List Char := l.whole ++ (l.part ++ l.exponentText)

theorem part_tail (l : FloatLiteral) : l.part.tail = l.fraction := by
  unfold part
  split
  next h => rw [h]; rfl
  next => rfl

theorem isDigit_whole (l : FloatLiteral) : ∀ c ∈ l.whole, c.isDigit = true :=
  fun c hc => l.isDigits c (List.mem_append_left _ hc)

theorem isDigit_fraction (l : FloatLiteral) : ∀ c ∈ l.fraction, c.isDigit = true :=
  fun c hc => l.isDigits c (List.mem_append_right _ hc)

/-- What follows the fraction of a literal does not begin with a digit. -/
theorem head?_exponentText (l : FloatLiteral) {more : List Char} (hmore : Ended more) {c : Char}
    (hc : (l.exponentText ++ more).head? = some c) : c.isDigit = false ∧ c ≠ '.' := by
  unfold exponentText at hc
  cases he : l.exponent with
  | none =>
    rw [he] at hc
    rcases hmore with rfl | ⟨more, rfl⟩
    · cases hc
    · cases hc
      decide
  | some e =>
    rw [he] at hc
    have hmark := e.isMark
    simp only [List.mem_cons, List.not_mem_nil, or_false] at hmark
    rcases hmark with h | h | h | h | h | h <;>
      (simp only [Option.elim_some, h, List.cons_append, List.nil_append, List.head?_cons,
        Option.some.injEq] at hc
       subst hc
       decide)

/-- What follows the whole part of a literal does not begin with a digit. -/
theorem head?_part (l : FloatLiteral) {more : List Char} (hmore : Ended more) {c : Char}
    (hc : (l.part ++ (l.exponentText ++ more)).head? = some c) : c.isDigit = false := by
  unfold part at hc
  split at hc
  next => exact (l.head?_exponentText hmore hc).1
  next =>
    cases hc
    decide

/-- A run of digits that no digit follows is split off. -/
theorem takeWhile_digits {run rest : List Char} (hrun : ∀ c ∈ run, c.isDigit = true)
    (hrest : ∀ c, rest.head? = some c → c.isDigit = false) :
    (run ++ rest).takeWhile Char.isDigit = run ∧ (run ++ rest).dropWhile Char.isDigit = rest := by
  rw [List.takeWhile_append_of_pos hrun, List.dropWhile_append_of_pos hrun]
  cases rest with
  | nil => simp
  | cons c cs =>
    have hc := hrest c rfl
    simp [hc]

theorem fraction_part (l : FloatLiteral) {more : List Char} (hmore : Ended more) :
    Lexeme.fraction (l.part ++ (l.exponentText ++ more)) = (l.part, l.exponentText ++ more) := by
  have hbehind := fun c => l.head?_exponentText hmore (c := c)
  unfold part
  split
  next h =>
    show Lexeme.fraction (l.exponentText ++ more) = ([], l.exponentText ++ more)
    unfold Lexeme.fraction
    split
    next d ds heq =>
      rw [heq] at hbehind
      exact absurd rfl (hbehind '.' rfl).2
    next => rfl
  next h =>
    cases hf : l.fraction with
    | nil => exact absurd hf h
    | cons d ds =>
      have hd : d.isDigit = true := l.isDigit_fraction d (by rw [hf]; simp)
      have hds : ∀ c ∈ ds, c.isDigit = true := fun c hc => l.isDigit_fraction c (by rw [hf]; simp [hc])
      obtain ⟨htake, hdrop⟩ := takeWhile_digits hds fun c hc => (hbehind c hc).1
      show Lexeme.fraction ('.' :: d :: (ds ++ (l.exponentText ++ more))) = _
      simp only [Lexeme.fraction, hd, if_true, htake, hdrop]

end FloatLiteral

theorem Exponent.exponentMark?_append (e : Exponent) {more : List Char} :
    exponentMark? (e.mark ++ (e.digits ++ more)) = some (e.mark, e.digits ++ more) := by
  have hmark := e.isMark
  obtain ⟨d, ds, hcons⟩ := List.exists_cons_of_ne_nil e.digits_ne_nil
  have hd : d.isDigit = true := e.isDigits d (by rw [hcons]; simp)
  have hplus : d ≠ '+' := ne_of_isDigit hd (by decide)
  have hminus : d ≠ '-' := ne_of_isDigit hd (by decide)
  simp only [List.mem_cons, List.not_mem_nil, or_false] at hmark
  rcases hmark with h | h | h | h | h | h <;>
    simp [h, hcons, exponentMark?, hplus, hminus]

namespace FloatLiteral

theorem ne_of_mem_text (l : FloatLiteral) {x : Char} (hx : x.isDigit = false)
    (hother : x ∉ ['.', 'e', 'E', '+', '-']) : ∀ c ∈ l.text, c ≠ x := by
  intro c hc heq
  subst heq
  simp only [text, List.mem_append] at hc
  rcases hc with hc | hc | hc
  · exact ne_of_isDigit (l.isDigit_whole c hc) hx rfl
  · unfold part at hc
    split at hc
    next => cases hc
    next =>
      rcases List.mem_cons.1 hc with rfl | hc
      · simp at hother
      · exact ne_of_isDigit (l.isDigit_fraction c hc) hx rfl
  · unfold exponentText at hc
    cases he : l.exponent with
    | none => rw [he] at hc; cases hc
    | some e =>
      rw [he] at hc
      rcases List.mem_append.1 hc with hc | hc
      · have hmarks : ∀ m ∈ [['e'], ['e', '+'], ['e', '-'], ['E'], ['E', '+'], ['E', '-']],
            ∀ c ∈ m, c ∈ ['.', 'e', 'E', '+', '-'] := by simp
        exact hother (hmarks e.mark e.isMark c hc)
      · exact ne_of_isDigit (e.isDigits c hc) hx rfl

/-- A literal begins as a decimal numeral does. -/
theorem exists_text_eq (l : FloatLiteral) (more : List Char) : ∃ c cs, l.text = c :: cs ∧
    (c.isDigit = true ∨ c = '.' ∧ (cs ++ more).head?.any Char.isDigit = true) := by
  cases hw : l.whole with
  | cons c cs =>
    refine ⟨c, cs ++ (l.part ++ l.exponentText), by simp [text, hw], .inl ?_⟩
    exact l.isDigit_whole c (by rw [hw]; simp)
  | nil =>
    cases hf : l.fraction with
    | nil => exact absurd (by rw [hw, hf]; rfl) l.digits_ne_nil
    | cons d ds =>
      have hd : d.isDigit = true := l.isDigit_fraction d (by rw [hf]; simp)
      refine ⟨'.', d :: ds ++ l.exponentText, by simp [text, part, hw, hf], .inr ⟨rfl, ?_⟩⟩
      simpa using hd

/-- A literal is read as the number that it spells. -/
theorem decimal_text (policy : OverflowPolicy) (l : FloatLiteral) {more : List Char}
    (hmore : Ended more) :
    decimal policy (l.text ++ more) = plain (.float l.value) l.text more := by
  have hvalue : ∀ text, floatKind text (l.whole ++ l.fraction) l.lastExponent = .float l.value := by
    intro text
    have hfinite : (Binary64.ofDecimal (decimalNumber (l.whole ++ l.fraction))
        l.lastExponent).isFinite = true := l.finite
    simp only [floatKind, hfinite, if_true, value]
  obtain ⟨htake, hdrop⟩ := takeWhile_digits l.isDigit_whole fun c hc => l.head?_part hmore hc
  have hassoc : l.text ++ more = l.whole ++ (l.part ++ (l.exponentText ++ more)) := by
    simp [text]
  rw [hassoc, decimal, htake, hdrop, l.fraction_part hmore]
  show behindFraction policy l.whole l.part (l.exponentText ++ more) = _
  cases he : l.exponent with
  | none =>
    have hfraction : l.fraction ≠ [] := by
      rcases l.marked with h | h
      · exact h
      · rw [he] at h; cases h
    have htext : l.exponentText = [] := by rw [exponentText, he]; rfl
    have hpart : l.part ≠ [] := by rw [part, if_neg hfraction]; simp
    have hexp : -(l.fraction.length : Int) = l.lastExponent := by
      rw [lastExponent, he]
      exact (Int.zero_sub _).symm
    rw [htext, List.nil_append, behindFraction, exponentMark?_ended hmore]
    simp only [hpart, if_false, hexp, l.part_tail, hvalue, endNumeral_ended hmore]
    rw [text, htext, List.append_nil]
  | some e =>
    have htext : l.exponentText = e.mark ++ e.digits := by rw [exponentText, he]; rfl
    have hspace : Char.isDigit ' ' = false := by decide
    have hexp : exponentValue e.mark e.digits - (l.fraction.length : Int) = l.lastExponent := by
      rw [lastExponent, he]
      rfl
    rw [htext, List.append_assoc, behindFraction, e.exponentMark?_append]
    simp only [hmore.takeWhile_append hspace e.isDigits, hmore.dropWhile_append hspace e.isDigits,
      e.digits_ne_nil, if_false, hexp, l.part_tail, hvalue, endNumeral_ended hmore]
    rw [text, htext]
    simp

end FloatLiteral

/-- The piece of a double-precision number. -/
def Piece.float (l : FloatLiteral) : Piece where
  kind := .float l.value
  opening := []
  body := l.text
  closing := []
  reads := by
    intro policy more hmore
    obtain ⟨c, cs, htext, hstart⟩ := l.exists_text_eq more
    have hsecond : ∀ x : Char, x.isDigit = false → x ∉ ['.', 'e', 'E', '+', '-'] → x ≠ ' ' →
        (cs ++ more).head? ≠ some x := by
      intro x hx hother hblank
      cases cs with
      | nil => exact hmore.head?_ne hblank
      | cons d ds =>
        have hd := l.ne_of_mem_text hx hother d (by rw [htext]; simp)
        simpa using hd
    refine ⟨c, cs ++ more, by simp [htext], gap_decimal (hstart.imp_right And.left), ?_⟩
    rw [read_decimal policy hstart ⟨hsecond 'x' (by decide) (by decide) (by decide),
      hsecond 'X' (by decide) (by decide) (by decide)⟩, ← List.cons_append, ← htext,
      l.decimal_text policy hmore]
    rfl
  proper := by simp
  plain h := by cases h

/-! ### Every number has a spelling -/

namespace Binary64

/-- The magnitude with a pattern, in units of the least positive number. -/
def units (n : Nat) : Nat := significand n * 2 ^ scale n

theorem divNearest_mul (k : Nat) {b : Nat} (hb : 0 < b) : divNearest (k * b) b = k := by
  rw [divNearest, Nat.mul_div_cancel k hb, Nat.mul_mod_left]
  exact if_pos (.inl hb)

/-- The scale at which a magnitude is rounded is its own. -/
theorem log2_units {n : Nat} : (units n).log2 - 52 = scale n := by
  simp only [units, significand, scale, Nat.pow_eq]
  by_cases h : n < 2 ^ 52
  · rw [if_pos h, Nat.div_eq_of_lt h, Nat.zero_sub, Nat.pow_zero, Nat.mul_one]
    by_cases hzero : n = 0
    · subst hzero
      rfl
    · have hlog := (Nat.log2_lt hzero).2 h
      omega
  · have hpos : 0 < n / 2 ^ 52 := Nat.div_pos (Nat.le_of_not_lt h) (by decide)
    have hmod : n % 2 ^ 52 < 2 ^ 52 := Nat.mod_lt n (by decide)
    have hlog : ∀ k, ((2 ^ 52 + n % 2 ^ 52) * 2 ^ k).log2 = 52 + k := by
      intro k
      have hk : 0 < 2 ^ k := Nat.two_pow_pos k
      refine (Nat.log2_eq_iff (Nat.mul_ne_zero (by omega) (by omega))).2 ⟨?_, ?_⟩
      · rw [Nat.pow_add]
        exact Nat.mul_le_mul_right _ (by omega)
      · rw [Nat.add_right_comm, Nat.pow_add]
        exact Nat.mul_lt_mul_of_pos_right (by omega) hk
    rw [if_neg h, hlog]
    omega

/-- A quotient that is the magnitude of a pattern has that pattern. -/
theorem ofRatio_units {n a b : Nat} (hn : n < infinite) (hb : 0 < b)
    (h : a * 2 ^ 1074 = units n * b) : ofRatio a b = n := by
  have hpattern : scale n * 2 ^ 52 + significand n = n := by
    simp only [scale, significand, Nat.pow_eq]
    split
    next => omega
    next => omega
  have hround : divNearest (units n * b) (b * 2 ^ scale n) = significand n := by
    have hunits : units n * b = significand n * (b * 2 ^ scale n) := by
      rw [units]
      ac_rfl
    rw [hunits, divNearest_mul _ (Nat.mul_pos hb (Nat.two_pow_pos _))]
  simp only [ofRatio, Nat.pow_eq, h, Nat.mul_div_cancel _ hb, log2_units, hround, hpattern]
  exact Nat.min_eq_left (Nat.le_of_lt hn)

theorem units_lt {n : Nat} (hn : n < infinite) : units n < 2 ^ (53 + 2045) := by
  have hscale : scale n ≤ 2045 := by
    rw [infinite, Nat.pow_eq] at hn
    rw [scale, Nat.pow_eq]
    omega
  have hsignificand : significand n < 2 ^ 53 := by
    simp only [significand, Nat.pow_eq]
    split
    next => omega
    next => omega
  calc units n = significand n * 2 ^ scale n := rfl
    _ < 2 ^ 53 * 2 ^ scale n := Nat.mul_lt_mul_of_pos_right hsignificand (Nat.two_pow_pos _)
    _ = 2 ^ (53 + scale n) := (Nat.pow_add 2 53 (scale n)).symm
    _ ≤ 2 ^ (53 + 2045) := Nat.pow_le_pow_right (by decide) (Nat.add_le_add_left hscale 53)

theorem units_eq_zero {n : Nat} : units n = 0 ↔ n = 0 := by
  have hpow := Nat.two_pow_pos (scale n)
  simp only [units, Nat.mul_eq_zero, significand, Nat.pow_eq]
  constructor
  · rintro (h | h)
    · split at h
      next => exact h
      next => omega
    · omega
  · rintro rfl
    exact .inl rfl

/-- The decimal that equals a magnitude is read as the magnitude. -/
theorem ofDecimal_units {n : Nat} (hn : n < infinite) :
    ofDecimal (units n * 5 ^ 1074) (-1074) = ofPattern n := by
  have hfive : ∀ k, 0 < 5 ^ k := fun k => Nat.pow_pos (by decide)
  by_cases hzero : n = 0
  · subst hzero
    have hdigits : units 0 * 5 ^ 1074 = 0 := Nat.mul_eq_zero.2 (.inl (units_eq_zero.2 rfl))
    rw [hdigits, ofDecimal, if_pos (.inl rfl)]
  have hpos : 0 < units n := Nat.pos_of_ne_zero fun h => hzero (units_eq_zero.1 h)
  -- The decimal has at least 745 and at most 1384 digits.
  have hlow : ¬ decimalLength (units n * 5 ^ 1074) ≤ 744 := by
    rw [decimalLength, Nat.length_toDigits_le_iff (by decide) (by decide)]
    have hten : 10 ^ 744 ≤ 5 ^ 1074 := by decide +kernel
    exact Nat.not_lt.2 (Nat.le_trans hten (Nat.le_mul_of_pos_left _ hpos))
  have hhigh : decimalLength (units n * 5 ^ 1074) ≤ 1384 := by
    rw [decimalLength, Nat.length_toDigits_le_iff (by decide) (by decide)]
    have hten : 2 ^ (53 + 2045) * 5 ^ 1074 ≤ 10 ^ 1384 := by decide +kernel
    exact Nat.lt_of_lt_of_le (Nat.mul_lt_mul_of_pos_right (units_lt hn) (hfive 1074)) hten
  have hratio : units n * 5 ^ 1074 * 10 ^ 0 * 2 ^ 1074 = units n * 10 ^ 1074 := by
    have hten : ∀ k, 5 ^ k * 2 ^ k = 10 ^ k := fun k => (Nat.mul_pow 5 2 k).symm
    simp only [Nat.pow_zero, Nat.mul_one, Nat.mul_assoc, hten]
  have hne : units n * 5 ^ 1074 ≠ 0 :=
    Nat.mul_ne_zero (Nat.ne_of_gt hpos) (Nat.ne_of_gt (hfive 1074))
  rw [ofDecimal, if_neg (by simp only [hne, false_or]; omega), if_neg (by omega), Nat.pow_eq,
    Nat.pow_eq]
  show ofPattern (ofRatio (units n * 5 ^ 1074 * 10 ^ 0) (10 ^ 1074)) = ofPattern n
  rw [ofRatio_units hn (Nat.pow_pos (by decide)) hratio]

theorem ofPattern_pattern {x : Binary64} (h : x.isNegative = false) : ofPattern x.pattern = x := by
  have hlt : x.bits.toNat < 2 ^ 63 := by
    rw [isNegative, decide_eq_false_iff_not, Nat.pow_eq] at h
    omega
  rw [pattern, Nat.pow_eq, Nat.mod_eq_of_lt hlt, ofPattern, UInt64.ofNat_toNat]

end Binary64

/-- Every finite number that is not negative is spelled by a literal. -/
theorem FloatLiteral.exists_value_eq {x : Binary64} (hfinite : x.isFinite = true)
    (hsign : x.isNegative = false) : ∃ l : FloatLiteral, l.value = x := by
  have hpattern : x.pattern < Binary64.infinite := of_decide_eq_true hfinite
  -- The exact decimal of the magnitude, with the exponent of the least positive number.
  let digits := Nat.toDigits 10 (Binary64.units x.pattern * 5 ^ 1074)
  let exponent : Exponent :=
    ⟨['e', '-'], ['1', '0', '7', '4'], by decide, by simp, by decide⟩
  have hexp : exponentValue exponent.mark exponent.digits - (([] : List Char).length : Int) =
      -1074 := by decide
  have hvalue : Binary64.ofDecimal (decimalNumber (digits ++ []))
      (exponentValue exponent.mark exponent.digits - (([] : List Char).length : Int)) = x := by
    rw [hexp, List.append_nil, decimalNumber_toDigits, Binary64.ofDecimal_units hpattern,
      Binary64.ofPattern_pattern hsign]
  refine ⟨⟨digits, [], some exponent, ?_, ?_, .inr rfl, ?_⟩, hvalue⟩
  · intro c hc
    rw [List.append_nil] at hc
    exact Nat.isDigit_of_mem_toDigits (by decide) (by decide) hc
  · rw [List.append_nil]
    exact Nat.toDigits_ne_nil
  · exact (congrArg Binary64.isFinite hvalue).trans hfinite

end TaggedSql
