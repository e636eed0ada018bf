import TaggedSql.Binary64.Layout

/-!
# JSON documents

The values that trees and settings are written as. Integers and double-precision numbers are kept
apart, and the members of an object keep their order. `write` gives the text without any blanks.
-/

namespace TaggedSql

/-- A JSON value. -/
inductive Json where
  | null
  | integer (n : Int)
  | float (x : Binary64)
  | string (s : String)
  | array (items : List Json)
  | object (members : List (String × Json))

namespace Json

/-- The four hexadecimal digits of a code point below `2 ^ 16`. -/
def codeDigits (n : Nat) : List Char :=
  let digits := Nat.toDigits 16 n
  List.replicate (4 - digits.length) '0' ++ digits

/-- Writes a character of a string. Quotes, backslashes and control characters are escaped. -/
def escape (c : Char) : List Char :=
  if c = '\x22' then ['\\', '\x22']
  else if c = '\\' then ['\\', '\\']
  else if c = '\x08' then ['\\', 'b']
  else if c = '\x09' then ['\\', 't']
  else if c = '\x0a' then ['\\', 'n']
  else if c = '\x0c' then ['\\', 'f']
  else if c = '\x0d' then ['\\', 'r']
  else if c.toNat < 0x20 then '\\' :: 'u' :: codeDigits c.toNat
  else [c]

/-- Writes a string with its quotes. -/
def quote (s : String) : String :=
  "\x22" ++ String.ofList (s.toList.flatMap escape) ++ "\x22"

mutual

/-- The text of a value, without blanks. -/
def write : Json → String
  | .null => "null"
  | .integer n => toString n
  | .float x => Binary64.Layout.json.write x
  | .string s => quote s
  | .array items => "[" ++ String.intercalate "," (writeItems items) ++ "]"
  | .object members => "\x7b" ++ String.intercalate "," (writeMembers members) ++ "\x7d"

/-- The texts of the items of an array. -/
def writeItems : List Json → List String
  | [] => []
  | item :: items => write item :: writeItems items

/-- The texts of the members of an object. -/
def writeMembers : List (String × Json) → List String
  | [] => []
  | (key, value) :: members => (quote key ++ ":" ++ write value) :: writeMembers members

end

mutual

/-- The value with the members of every object in the order of their keys. -/
def sortKeys : Json → Json
  | .array items => .array (sortKeysItems items)
  | .object members =>
    .object ((sortKeysMembers members).mergeSort fun a b => decide (a.1 ≤ b.1))
  | value => value

/-- The items of an array with sorted keys. -/
def sortKeysItems : List Json → List Json
  | [] => []
  | item :: items => sortKeys item :: sortKeysItems items

/-- The members of an object with sorted keys below them. -/
def sortKeysMembers : List (String × Json) → List (String × Json)
  | [] => []
  | (key, value) :: members => (key, sortKeys value) :: sortKeysMembers members

end

end Json

end TaggedSql
