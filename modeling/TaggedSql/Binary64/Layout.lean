import TaggedSql.Binary64.Shortest

/-!
# Texts of double-precision numbers

A layout says how the shortest digits of a number are written out: which decimal exponents are
written positionally, whether a whole number keeps a fraction, and how an exponent is signed.
-/

namespace TaggedSql.Binary64

/-- The decisions of a number format. -/
structure Layout where
  /-- The decimal exponents of the numbers that are written without an exponent. -/
  positional : Int → Bool
  /-- Whether a whole number is written with the fraction `.0`. -/
  keepsFraction : Bool
  /-- Whether a positive exponent carries a plus sign. -/
  signsExponent : Bool
  /-- Which of two equally near decimals is written. -/
  tie : Tie
  /-- The text of what is no number. -/
  nan : String
  /-- The text of the positive infinity. -/
  infinity : String
  /-- The text of the negative infinity. -/
  negativeInfinity : String

/-- Writes a decimal without an exponent. -/
def positionalText (keepsFraction : Bool) (d : Decimal) : List Char :=
  if d.exponent < 0 then
    '0' :: '.' :: (List.replicate (-d.exponent - 1).toNat '0' ++ d.digits)
  else
    let places := d.exponent.toNat + 1
    let whole := d.digits.take places ++ List.replicate (places - d.digits.length) '0'
    match d.digits.drop places with
    | [] => if keepsFraction then whole ++ ['.', '0'] else whole
    | fraction => whole ++ '.' :: fraction

/-- Writes a decimal with an exponent; a point stands only before further digits. -/
def scientificText (signsExponent : Bool) (d : Decimal) : List Char :=
  let mark := if signsExponent ∧ 0 ≤ d.exponent then ['e', '+'] else ['e']
  let significand := match d.digits with
    | first :: second :: more => first :: '.' :: second :: more
    | digits => digits
  significand ++ mark ++ (toString d.exponent).toList

/-- The text of a number in a layout. -/
def Layout.write (l : Layout) (x : Binary64) : String :=
  if x.isNaN then l.nan
  else if !x.isFinite then if x.isNegative then l.negativeInfinity else l.infinity
  else
    let d := if x.pattern = 0 then ⟨['0'], 0⟩ else shortest l.tie x.pattern
    let magnitude :=
      if l.positional d.exponent then positionalText l.keepsFraction d
      else scientificText l.signsExponent d
    String.ofList (if x.isNegative then '-' :: magnitude else magnitude)

/-- Forms show a number positionally from `0.0001` up to, and without, `10 ^ 16`. -/
def Layout.form : Layout where
  positional e := -4 ≤ e ∧ e < 16
  keepsFraction := true
  signsExponent := false
  tie := .upward
  nan := "NaN"
  infinity := "inf"
  negativeInfinity := "-inf"

/-- Messages show every number positionally, and whole numbers without a fraction. -/
def Layout.message : Layout where
  positional _ := true
  keepsFraction := false
  signsExponent := false
  tie := .upward
  nan := "NaN"
  infinity := "inf"
  negativeInfinity := "-inf"

/-- JSON documents show a number positionally from `0.00001` up to, and without, `10 ^ 16`; what is
no finite number has no text of its own there. -/
def Layout.json : Layout where
  positional e := -5 ≤ e ∧ e < 16
  keepsFraction := true
  signsExponent := true
  tie := .toEven
  nan := "null"
  infinity := "null"
  negativeInfinity := "null"

example : Layout.form.write (ofDecimal 1 16) = "1e16" := by decide +kernel
example : Layout.form.write (ofDecimal 15 (-6)) = "1.5e-5" := by decide +kernel
example : Layout.form.write (ofDecimal 1 (-4)) = "0.0001" := by decide +kernel
example : Layout.form.write (ofDecimal 12345 (-2)) = "123.45" := by decide +kernel
example : Layout.json.write (ofDecimal 12345678901234568 4) = "1.2345678901234568e+20" := by
  decide +kernel
example : Layout.message.write (ofDecimal 1 (-7)) = "0.0000001" := by decide +kernel

end TaggedSql.Binary64
