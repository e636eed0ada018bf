/-!
# Digits

The value of a digit, the number that a run of digits spells in a base, and the bytes that a run of
hexadecimal digit pairs spells. A pair may also be a plus sign before one digit.
-/

namespace TaggedSql.Text

/-- The value of a hexadecimal digit of either case. -/
def digitValue? (c : Char) : Option Nat :=
  if '0' ≤ c ∧ c ≤ '9' then some (c.toNat - '0'.toNat)
  else if 'a' ≤ c ∧ c ≤ 'f' then some (c.toNat - 'a'.toNat + 10)
  else if 'A' ≤ c ∧ c ≤ 'F' then some (c.toNat - 'A'.toNat + 10)
  else none

/-- Whether a character is a hexadecimal digit of either case. -/
def isHexDigit (c : Char) : Bool := (digitValue? c).isSome

/-- The number that digits spell in a base, the most significant first. A character that is no
digit counts as zero. -/
def ofDigits (base : Nat) (cs : List Char) : Nat :=
  cs.foldl (fun n c => n * base + (digitValue? c).getD 0) 0

/-- The number that decimal digits spell. -/
def decimalNumber (cs : List Char) : Nat := ofDigits 10 cs

/-- The number that hexadecimal digits spell. -/
def hexNumber (cs : List Char) : Nat := ofDigits 16 cs

/-- The byte that two characters spell: two digits, or a plus sign and one digit. -/
def hexByte? (high low : Char) : Option UInt8 :=
  if high = '+' then (digitValue? low).map UInt8.ofNat
  else (digitValue? high).bind fun h => (digitValue? low).map fun l => UInt8.ofNat (h * 16 + l)

/-- The bytes that a text spells two characters at a time, if it does. -/
def hexBytes? : List Char → Option (List UInt8)
  | [] => some []
  | [_] => none
  | high :: low :: cs => (hexByte? high low).bind fun b => (hexBytes? cs).map (b :: ·)

end TaggedSql.Text
