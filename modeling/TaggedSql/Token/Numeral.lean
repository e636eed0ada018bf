import TaggedSql.Settings.Basic
import TaggedSql.Token.Lexeme

/-!
# Numerals

A decimal numeral has digits, then perhaps a point with digits behind it, then perhaps an exponent.
One with neither point nor exponent is an integer as long as a signed 64-bit integer holds it; the
policy decides about greater ones, except that `2 ^ 63` has a kind of its own. A hexadecimal numeral
has up to sixteen digits and is read as a signed 64-bit integer in two's complement.

A numeral that runs on into a word is no token; the whole word is taken with it.
-/

namespace TaggedSql.Lexeme

/-- Whether the character lengthens a misspelled numeral. -/
def spoilsNumeral (c : Char) : Bool := Text.isAlphanumeric c || c == '_'

/-- A misspelled numeral, with the rest of the word it runs into. -/
def badNumeral (problem : Problem) (front cs : List Char) : Lexeme :=
  bad problem (front ++ cs.takeWhile spoilsNumeral) (cs.dropWhile spoilsNumeral)

/-- Splits off a point and the digits behind it; a point without digits is no fraction. -/
def fraction (cs : List Char) : List Char × List Char :=
  match cs with
  | '.' :: d :: more =>
    if d.isDigit then ('.' :: d :: more.takeWhile Char.isDigit, more.dropWhile Char.isDigit)
    else ([], cs)
  | _ => ([], cs)

/-- Splits off the mark of an exponent and its sign. -/
def exponentMark? (cs : List Char) : Option (List Char × List Char) :=
  match cs with
  | c :: more =>
    if c = 'e' ∨ c = 'E' then
      match more with
      | '+' :: rest => some ([c, '+'], rest)
      | '-' :: rest => some ([c, '-'], rest)
      | _ => some ([c], more)
    else none
  | [] => none

/-- The exponent that a mark and digits spell. -/
def exponentValue (mark digits : List Char) : Int :=
  if '-' ∈ mark then -(Text.decimalNumber digits : Int) else Text.decimalNumber digits

/-- The kind of a numeral with the value `digits * 10 ^ exponent`; an infinite one is refused. -/
def floatKind (text digits : List Char) (exponent : Int) : Kind :=
  let x := Binary64.ofDecimal (Text.decimalNumber digits) exponent
  if x.isFinite then .float x else .problem (.floatRange text)

/-- The kind of a numeral that has digits only. -/
def integerKind (policy : OverflowPolicy) (digits : List Char) : Kind :=
  let n := Text.decimalNumber digits
  if n < Nat.pow 2 63 then .integer (Int64.ofNat n)
  else if n = Nat.pow 2 63 then .leastMagnitude
  else match policy with
    | .promote => floatKind digits digits 0
    | .reject => .problem (.integerRange digits)

/-- The lexeme of a numeral with the given kind and text, unless it runs on into a word. -/
def endNumeral (kind : Kind) (text cs : List Char) : Lexeme :=
  match cs with
  | c :: _ => if spoilsNumeral c then badNumeral .number text cs else plain kind text cs
  | [] => plain kind text cs

/-- Reads on behind the whole part and the fraction of a decimal numeral. -/
def behindFraction (policy : OverflowPolicy) (whole part cs : List Char) : Lexeme :=
  match exponentMark? cs with
  | some (mark, rest) =>
    let digits := rest.takeWhile Char.isDigit
    if digits = [] then badNumeral .exponent (whole ++ part ++ mark) rest
    else
      let text := whole ++ part ++ mark ++ digits
      let exponent := exponentValue mark digits - (part.tail.length : Int)
      endNumeral (floatKind text (whole ++ part.tail) exponent) text (rest.dropWhile Char.isDigit)
  | none =>
    if part = [] then endNumeral (integerKind policy whole) whole cs
    else
      let text := whole ++ part
      endNumeral (floatKind text (whole ++ part.tail) (-(part.tail.length : Int))) text cs

/-- Reads a decimal numeral. -/
def decimal (policy : OverflowPolicy) (cs : List Char) : Lexeme :=
  let split := fraction (cs.dropWhile Char.isDigit)
  behindFraction policy (cs.takeWhile Char.isDigit) split.1 split.2

/-- Reads a hexadecimal numeral behind its mark, `0x` or `0X`. -/
def hexadecimal (mark : List Char) (cs : List Char) : Lexeme :=
  let digits := cs.takeWhile Text.isHexDigit
  let rest := cs.dropWhile Text.isHexDigit
  if digits = [] ∨ rest.head?.any spoilsNumeral then badNumeral .hexNumber (mark ++ digits) rest
  else if 16 < digits.length then bad (.hexTooLarge digits) (mark ++ digits) rest
  else plain (.integer (Int64.ofNat (Text.hexNumber digits))) (mark ++ digits) rest

/-- Reads a numeral of either base. -/
def numeral (policy : OverflowPolicy) (cs : List Char) : Lexeme :=
  match cs with
  | '0' :: 'x' :: more => hexadecimal ['0', 'x'] more
  | '0' :: 'X' :: more => hexadecimal ['0', 'X'] more
  | _ => decimal policy cs

/-! ### What is taken and what is left -/

theorem badNumeral_reads {problem : Problem} {front cs all : List Char} (hfront : front ≠ [])
    (h : front ++ cs = all) : (badNumeral problem front cs).Reads all :=
  Reads.bad (by simp [hfront]) (by simpa using h)

theorem endNumeral_reads {kind : Kind} {text cs all : List Char} (htext : text ≠ [])
    (h : text ++ cs = all) : (endNumeral kind text cs).Reads all := by
  unfold endNumeral
  split
  next c more =>
    split
    next => exact badNumeral_reads htext h
    next => exact Reads.plain htext h
  next => exact Reads.plain htext h

theorem fraction_append (cs : List Char) : (fraction cs).1 ++ (fraction cs).2 = cs := by
  unfold fraction
  split
  next d more =>
    split
    next => simp
    next => rfl
  next => rfl

theorem exponentMark?_append {cs mark rest : List Char} (h : exponentMark? cs = some (mark, rest)) :
    mark ≠ [] ∧ mark ++ rest = cs := by
  unfold exponentMark? at h
  split at h
  next c more =>
    split at h
    next =>
      split at h <;> cases h <;> simp
    next => cases h
  next => cases h

/-- A text can begin with a decimal numeral if it begins with a digit, or with a point and a
digit. -/
def StartsDecimal (cs : List Char) : Prop :=
  ∃ c more, cs = c :: more ∧ (c.isDigit = true ∨ c = '.' ∧ ∃ d rest, more = d :: rest ∧ d.isDigit)

theorem whole_or_fraction_ne_nil {cs : List Char} (h : StartsDecimal cs) :
    cs.takeWhile Char.isDigit ++ (fraction (cs.dropWhile Char.isDigit)).1 ≠ [] := by
  obtain ⟨c, more, rfl, hc | ⟨rfl, d, rest, rfl, hd⟩⟩ := h
  · simp [List.takeWhile_cons_of_pos hc]
  · have hpoint : ('.'.isDigit) = false := by decide
    simp [List.dropWhile_cons_of_neg, hpoint, fraction, hd]

theorem behindFraction_reads (policy : OverflowPolicy) {whole part cs all : List Char}
    (hfront : whole ++ part ≠ []) (h : whole ++ (part ++ cs) = all) :
    (behindFraction policy whole part cs).Reads all := by
  unfold behindFraction
  split
  next mark rest hmark =>
    obtain ⟨hne, happ⟩ := exponentMark?_append hmark
    dsimp only
    split
    next => exact badNumeral_reads (by simp [hne]) (by simpa [happ] using h)
    next =>
      refine endNumeral_reads (by simp [hne]) ?_
      rw [← h, ← happ]
      simp
  next =>
    split
    next hpart =>
      subst hpart
      exact endNumeral_reads (by simpa using hfront) (by simpa using h)
    next => exact endNumeral_reads hfront (by simpa using h)

theorem decimal_reads (policy : OverflowPolicy) {cs : List Char} (h : StartsDecimal cs) :
    (decimal policy cs).Reads cs :=
  behindFraction_reads policy (whole_or_fraction_ne_nil h)
    (by rw [fraction_append, List.takeWhile_append_dropWhile])

theorem hexadecimal_reads {mark : List Char} (hmark : mark ≠ []) (cs : List Char) :
    (hexadecimal mark cs).Reads (mark ++ cs) := by
  unfold hexadecimal
  dsimp only
  split
  next => exact badNumeral_reads (by simp [hmark]) (by simp)
  next =>
    split
    next => exact Reads.bad (by simp [hmark]) (by simp)
    next => exact Reads.plain (by simp [hmark]) (by simp)

theorem numeral_reads (policy : OverflowPolicy) {cs : List Char} (h : StartsDecimal cs) :
    (numeral policy cs).Reads cs := by
  unfold numeral
  split
  next more => exact hexadecimal_reads (by simp) more
  next more => exact hexadecimal_reads (by simp) more
  next => exact decimal_reads policy h

end TaggedSql.Lexeme
