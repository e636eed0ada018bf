/-!
# Double-precision numbers

A number of the IEEE 754 format `binary64` is kept as its 64 bits. Everything about its value is
computed in natural numbers, in units of the least positive number `2 ^ -1074`: the bits without
the sign, read as a natural number, are the *pattern* of the magnitude, and the finite magnitude
with pattern `n` is `significand n * 2 ^ scale n` units. Patterns and magnitudes rise together.
Powers are `Nat.pow` throughout, so that no instance for monoids can stand in the definitions.

* `ofRatio`: the pattern nearest to a quotient, a tie going to the even pattern;
* `ofDecimal`: the number nearest to a decimal.
-/

namespace TaggedSql

/-- A double-precision number, given by its bits. -/
structure Binary64 where
  bits : UInt64
  deriving DecidableEq, Repr

namespace Binary64

/-- The pattern of the infinite magnitude; greater patterns are not numbers. -/
def infinite : Nat := 2047 * Nat.pow 2 52

/-- The bits without the sign. -/
def pattern (x : Binary64) : Nat := x.bits.toNat % Nat.pow 2 63

/-- Whether the sign is set. -/
def isNegative (x : Binary64) : Bool := Nat.pow 2 63 ≤ x.bits.toNat

/-- Whether the value is a number, and not infinite. -/
def isFinite (x : Binary64) : Bool := x.pattern < infinite

/-- Whether the bits stand for no number. -/
def isNaN (x : Binary64) : Bool := infinite < x.pattern

/-- The non-negative number with a pattern. -/
def ofPattern (n : Nat) : Binary64 := ⟨UInt64.ofNat n⟩

/-- The significand of a magnitude: 53 bits for a normal number, fewer below. -/
def significand (n : Nat) : Nat :=
  if n < Nat.pow 2 52 then n else Nat.pow 2 52 + n % Nat.pow 2 52

/-- The binary exponent of a magnitude's significand, in units of the least positive number. -/
def scale (n : Nat) : Nat := n / Nat.pow 2 52 - 1

/-- The quotient rounded to the nearest natural number, a tie going to the even one. -/
def divNearest (a b : Nat) : Nat :=
  let q := a / b
  let twice := 2 * (a % b)
  if twice < b ∨ (twice = b ∧ q % 2 = 0) then q else q + 1

/-- The pattern of the magnitude nearest to `a / b`, a tie going to the even pattern. The scale is
the least at which the quotient has at most 53 bits. A quotient that rounds beyond the greatest
finite magnitude gives the infinite one. -/
def ofRatio (a b : Nat) : Nat :=
  let units := a * Nat.pow 2 1074
  let scale := (units / b).log2 - 52
  min (scale * Nat.pow 2 52 + divNearest units (b * Nat.pow 2 scale)) infinite

/-- The number of decimal digits of a natural number. -/
def decimalLength (n : Nat) : Nat := (Nat.toDigits 10 n).length

/-- The number nearest to `digits * 10 ^ exponent`. A decimal above `10 ^ 310` is infinite and one
below `10 ^ -330` is zero, whatever its digits; only between the two is the quotient formed. -/
def ofDecimal (digits : Nat) (exponent : Int) : Binary64 :=
  let magnitude : Int := decimalLength digits + exponent
  if digits = 0 ∨ magnitude < -330 then ofPattern 0
  else if 310 < magnitude then ofPattern infinite
  else ofPattern (ofRatio (digits * Nat.pow 10 exponent.toNat) (Nat.pow 10 (-exponent).toNat))

/-- The number `2 ^ 63`, the least that is too great for a signed 64-bit integer. -/
def twoPow63 : Binary64 := ofPattern (1086 * Nat.pow 2 52)

example : ofDecimal 9223372036854775808 0 = twoPow63 := by decide +kernel
example : (ofDecimal 1 (-1)).bits = 0x3FB999999999999A := by decide +kernel
example : (ofDecimal 5 (-324)).bits = 1 := by decide +kernel
example : (ofDecimal 17976931348623157 292).bits = 0x7FEFFFFFFFFFFFFF := by decide +kernel
example : (ofDecimal 17976931348623159 292).isFinite = false := by decide +kernel

end Binary64

end TaggedSql
