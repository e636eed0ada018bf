import TaggedSql.Text.Digits

/-!
# Reading parts of a JSON document

Readers that take one part from the front of a text and give what is left. A value that is not
wanted is skipped: its text has to follow the grammar, but the code units that its strings spell
need not pair up, its numbers may have any size, and it may be nested to any depth.
-/

namespace TaggedSql.Json

/-- Drops the blanks of a document: spaces, tabs, newlines and carriage returns. -/
def skipBlank (cs : List Char) : List Char :=
  cs.dropWhile fun c => c = ' ' || c = '\t' || c = '\n' || c = '\r'

/-- Takes a given text. -/
def expect? (text cs : List Char) : Option (List Char) :=
  if text.isPrefixOf cs then some (cs.drop text.length) else none

/-! ### Strings -/

/-- A piece of a string: a character as it is or escaped, or a code unit by its number. -/
inductive Piece where
  | char (c : Char)
  | unit (code : Nat)
  deriving DecidableEq, Repr

/-- The character that an escape of one letter stands for. -/
def escaped? : Char → Option Char
  | '\x22' => some '\x22'
  | '\\' => some '\\'
  | '/' => some '/'
  | 'b' => some '\x08'
  | 'f' => some '\x0c'
  | 'n' => some '\n'
  | 'r' => some '\r'
  | 't' => some '\t'
  | _ => none

/-- The number that four hexadecimal digits spell. -/
def code? (a b c d : Char) : Option Nat :=
  if [a, b, c, d].all Text.isHexDigit then some (Text.hexNumber [a, b, c, d]) else none

/-- Takes a string behind its opening quote. -/
def pieces? : List Char → Option (List Piece × List Char)
  | [] => none
  | '\x22' :: rest => some ([], rest)
  | '\\' :: 'u' :: a :: b :: c :: d :: rest => do
    let code ← code? a b c d
    let (more, rest) ← pieces? rest
    return (.unit code :: more, rest)
  | '\\' :: e :: rest => do
    let c ← escaped? e
    let (more, rest) ← pieces? rest
    return (.char c :: more, rest)
  | c :: rest =>
    if c = '\\' ∨ c.toNat < 0x20 then none
    else do
      let (more, rest) ← pieces? rest
      return (.char c :: more, rest)

/-- Whether a code unit is the first of a pair. -/
def isHigh (n : Nat) : Bool := 0xD800 ≤ n && n < 0xDC00

/-- Whether a code unit is the second of a pair. -/
def isLow (n : Nat) : Bool := 0xDC00 ≤ n && n < 0xE000

/-- The characters that pieces stand for. Code units that need a partner have to have it. -/
def characters? : List Piece → Option (List Char)
  | [] => some []
  | .char c :: more => (characters? more).map (c :: ·)
  | .unit high :: .unit low :: more =>
    if isHigh high then
      if isLow low then
        let code := 0x10000 + (high - 0xD800) * 0x400 + (low - 0xDC00)
        (characters? more).map (Char.ofNat code :: ·)
      else none
    else if isLow high then none
    else (characters? (.unit low :: more)).map (Char.ofNat high :: ·)
  | .unit code :: more =>
    if isHigh code || isLow code then none else (characters? more).map (Char.ofNat code :: ·)

/-- Takes a string behind its opening quote and reads it. -/
def string? (cs : List Char) : Option (String × List Char) := do
  let (pieces, rest) ← pieces? cs
  let text ← characters? pieces
  return (String.ofList text, rest)

/-! ### Numbers -/

/-- Takes one or more digits. -/
def digits? (cs : List Char) : Option (List Char × List Char) :=
  match cs.takeWhile Char.isDigit with
  | [] => none
  | digits => some (digits, cs.dropWhile Char.isDigit)

/-- Takes the digits of a whole number; only zero itself begins with a zero. -/
def whole? (cs : List Char) : Option (List Char × List Char) := do
  let (digits, rest) ← digits? cs
  if digits.head? = some '0' ∧ 1 < digits.length then none else return (digits, rest)

/-- Skips a fraction, if one follows. -/
def skipFraction? : List Char → Option (List Char)
  | '.' :: rest => (digits? rest).map Prod.snd
  | cs => some cs

/-- Skips an exponent, if one follows. -/
def skipExponent? : List Char → Option (List Char)
  | c :: rest =>
    if c = 'e' ∨ c = 'E' then
      match rest with
      | '+' :: rest | '-' :: rest => (digits? rest).map Prod.snd
      | _ => (digits? rest).map Prod.snd
    else some (c :: rest)
  | [] => some []

/-- Skips a number. -/
def skipNumber? (cs : List Char) : Option (List Char) := do
  let unsigned := match cs with
    | '-' :: rest => rest
    | _ => cs
  let (_, rest) ← whole? unsigned
  skipExponent? (← skipFraction? rest)

/-- Takes a natural number below a bound, written with neither sign, fraction nor exponent. -/
def natural? (bound : Nat) (cs : List Char) : Option (Nat × List Char) := do
  let (digits, rest) ← whole? cs
  let n := Text.decimalNumber digits
  match rest with
  | '.' :: _ | 'e' :: _ | 'E' :: _ => none
  | _ => if n < bound then return (n, rest) else none

/-! ### Values that are not wanted -/

/-- Takes a key and the colon behind it. -/
def key? (cs : List Char) : Option (List Piece × List Char) :=
  match skipBlank cs with
  | '\x22' :: rest => do
    let (key, rest) ← pieces? rest
    match skipBlank rest with
    | ':' :: rest => return (key, rest)
    | _ => none
  | _ => none

mutual

/-- Skips a value. The fuel bounds the number of steps. -/
def skipWithin? : Nat → List Char → Option (List Char)
  | 0, _ => none
  | fuel + 1, cs =>
    match skipBlank cs with
    | '[' :: rest =>
      match skipBlank rest with
      | ']' :: rest => some rest
      | _ => skipItems? fuel rest
    | '\x7b' :: rest =>
      match skipBlank rest with
      | '\x7d' :: rest => some rest
      | _ => skipMembers? fuel rest
    | '\x22' :: rest => (pieces? rest).map Prod.snd
    | 'n' :: rest => expect? ['u', 'l', 'l'] rest
    | 't' :: rest => expect? ['r', 'u', 'e'] rest
    | 'f' :: rest => expect? ['a', 'l', 's', 'e'] rest
    | rest => skipNumber? rest

/-- Skips the items of an array and its closing bracket. -/
def skipItems? : Nat → List Char → Option (List Char)
  | 0, _ => none
  | fuel + 1, cs => do
    let rest ← skipWithin? fuel cs
    match skipBlank rest with
    | ',' :: rest => skipItems? fuel rest
    | ']' :: rest => some rest
    | _ => none

/-- Skips the members of an object and its closing brace. -/
def skipMembers? : Nat → List Char → Option (List Char)
  | 0, _ => none
  | fuel + 1, cs => do
    let (_, rest) ← key? cs
    let rest ← skipWithin? fuel rest
    match skipBlank rest with
    | ',' :: rest => skipMembers? fuel rest
    | '\x7d' :: rest => some rest
    | _ => none

end

/-- Skips a value. Each character of a value costs at most two steps. -/
def skip? (cs : List Char) : Option (List Char) := skipWithin? (2 * cs.length + 2) cs

end TaggedSql.Json
