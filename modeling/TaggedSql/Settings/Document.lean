import TaggedSql.Json.Basic
import TaggedSql.Json.Scan
import TaggedSql.Settings.Basic

/-!
# Settings as documents

Settings are written as a JSON object with a member for each of them. A document may leave out
settings, which then have their defaults; an object may have other members, which are ignored; and
an array gives the settings by their place. A setting that is given twice makes the document
invalid.
-/

namespace TaggedSql.Settings

open Json

/-- The settings as a JSON object. -/
def toJson (s : Settings) : Json :=
  .object [("max_depth", .integer s.maxDepth), ("integer_overflow", .string s.overflow.name)]

/-- The settings that a document has given so far. -/
structure Given where
  maxDepth : Option Nat := none
  overflow : Option OverflowPolicy := none

/-- The settings given, with defaults for the others. -/
def Given.settings (g : Given) : Settings where
  maxDepth := g.maxDepth.getD ({} : Settings).maxDepth
  overflow := g.overflow.getD ({} : Settings).overflow

/-- Takes a depth, which is a 64-bit natural number. -/
def depth? (cs : List Char) : Option (Nat × List Char) := natural? (Nat.pow 2 64) (skipBlank cs)

/-- Takes a policy: its name, or an object whose only key is the name and whose value is null. -/
def policy? (cs : List Char) : Option (OverflowPolicy × List Char) :=
  match skipBlank cs with
  | '\x22' :: rest => do
    let (name, rest) ← string? rest
    return (← OverflowPolicy.ofName? name, rest)
  | '\x7b' :: rest => do
    let (key, rest) ← key? rest
    let policy ← OverflowPolicy.ofName? (String.ofList (← characters? key))
    let rest ← expect? ['n', 'u', 'l', 'l'] (skipBlank rest)
    let rest ← expect? ['\x7d'] (skipBlank rest)
    return (policy, rest)
  | _ => none

/-- Takes the value of a member and notes the setting that it gives. -/
def member? (g : Given) (key : String) (cs : List Char) : Option (Given × List Char) :=
  if key = "max_depth" then
    if g.maxDepth.isSome then none
    else (depth? cs).map fun r => ({ g with maxDepth := some r.1 }, r.2)
  else if key = "integer_overflow" then
    if g.overflow.isSome then none
    else (policy? cs).map fun r => ({ g with overflow := some r.1 }, r.2)
  else (skip? cs).map fun rest => (g, rest)

/-- Takes the members of an object and its closing brace. The fuel bounds their number. -/
def members? : Nat → Given → List Char → Option (Given × List Char)
  | 0, _, _ => none
  | fuel + 1, g, cs => do
    let (key, rest) ← key? cs
    let (g, rest) ← member? g (String.ofList (← characters? key)) rest
    match skipBlank rest with
    | ',' :: rest => members? fuel g rest
    | '\x7d' :: rest => some (g, rest)
    | _ => none

/-- Takes the object behind its opening brace. -/
def object? (cs : List Char) : Option (Given × List Char) :=
  match skipBlank cs with
  | '\x7d' :: rest => some ({}, rest)
  | rest => members? (rest.length + 1) {} rest

/-- Takes the array behind its opening bracket: a depth, then a policy. -/
def array? (cs : List Char) : Option (Given × List Char) :=
  match skipBlank cs with
  | ']' :: rest => some ({}, rest)
  | rest => do
    let (depth, rest) ← depth? rest
    match skipBlank rest with
    | ']' :: rest => some ({ maxDepth := some depth }, rest)
    | ',' :: rest => do
      let (policy, rest) ← policy? rest
      let rest ← expect? [']'] (skipBlank rest)
      return ({ maxDepth := some depth, overflow := some policy }, rest)
    | _ => none

/-- The settings that a document gives, if it is valid. -/
def ofDocument? (text : String) : Option Settings := do
  let (given, rest) ← match skipBlank text.toList with
    | '\x7b' :: rest => object? rest
    | '[' :: rest => array? rest
    | _ => none
  if skipBlank rest = [] then return given.settings else none

end TaggedSql.Settings
