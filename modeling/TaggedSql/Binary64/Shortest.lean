import TaggedSql.Binary64.Basic

/-!
# The shortest decimal of a double-precision number

A decimal reads back as a magnitude if it lies between the midpoints to the two neighbouring
magnitudes; the midpoints themselves read back exactly when the significand is even. `shortest`
gives the fewest digits that read back, and of two decimals with that many digits the nearer.

For each number of digits only the two neighbours of the magnitude on the decimal grid are tried:
if any point of the grid lies between the midpoints, so does one of them.
-/

namespace TaggedSql

/-- A positive decimal in scientific form: the first digit stands before the point. -/
structure Decimal where
  digits : List Char
  exponent : Int
  deriving DecidableEq, Repr

namespace Binary64

/-- Which of two equally near decimals is chosen. -/
inductive Tie where
  | upward
  | toEven
  deriving DecidableEq, Repr

/-- The exponent of the highest decimal digit of the magnitude with pattern `n`. No positive
magnitude is below `10 ^ -400`. -/
def decimalExponent (n : Nat) : Int :=
  let units := significand n * Nat.pow 2 (scale n)
  (decimalLength (units * Nat.pow 10 400 / Nat.pow 2 1074) : Int) - 401

/-- The multiple of `10 ^ grid` that reads back as the magnitude with pattern `n` and is nearest
to it, as a count of grid steps. All quantities are measured in quarter units of the least positive
magnitude, and multiplied by `10 ^ -grid` where the grid is finer than one. -/
def nearestOnGrid? (tie : Tie) (n : Nat) (grid : Int) : Option Nat :=
  let finer := Nat.pow 10 (-grid).toNat
  let step := 4 * Nat.pow 10 grid.toNat * Nat.pow 2 1074
  let ulp := 4 * Nat.pow 2 (scale n) * finer
  let value := significand n * ulp
  let below := if significand n = Nat.pow 2 52 ∧ 0 < scale n then ulp / 4 else ulp / 2
  let above := ulp / 2
  let even : Bool := significand n % 2 = 0
  let readsBack (c : Nat) : Bool :=
    let x := c * step
    if even then value ≤ x + below && x ≤ value + above
    else value < x + below && x < value + above
  let low := value / step
  let high := low + 1
  match readsBack low, readsBack high with
  | true, false => some low
  | false, true => some high
  | false, false => none
  | true, true =>
    let down := value - low * step
    let up := high * step - value
    if down < up then some low
    else if up < down then some high
    else match tie with
      | .upward => some high
      | .toEven => if low % 2 = 0 then some low else some high

/-- Removes the zeros at the end of a run of digits. -/
def dropTrailingZeros (cs : List Char) : List Char := (cs.reverse.dropWhile (· = '0')).reverse

/-- The decimal with `count` digits, the highest at the exponent `top`, that reads back as the
magnitude with pattern `n`. -/
def withDigits? (tie : Tie) (n : Nat) (top : Int) (count : Nat) : Option Decimal :=
  let grid := top - count + 1
  (nearestOnGrid? tie n grid).map fun c =>
    let digits := Nat.toDigits 10 c
    ⟨dropTrailingZeros digits, grid + digits.length - 1⟩

/-- The decimal with the fewest digits that reads back as the positive finite magnitude with
pattern `n`. Seventeen digits always suffice. -/
def shortest (tie : Tie) (n : Nat) : Decimal :=
  let top := decimalExponent n
  ((List.range 17).findSome? fun i => withDigits? tie n top (i + 1)).getD ⟨['0'], 0⟩

end Binary64

end TaggedSql
