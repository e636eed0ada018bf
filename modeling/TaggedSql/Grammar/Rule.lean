import TaggedSql.Grammar.Failure
import TaggedSql.Grammar.Stream
import TaggedSql.Tree.Arena

/-!
# Rules of the grammar

A rule takes tokens from the front of a stream and adds nodes to an arena. A rule that fails leaves
both as they were when it failed: what it has added stays in the arena.

Rules that may enclose each other do so only through `Context.enter`, which leads one level deeper.
All other recursion is repetition, and `iterate` repeats a step for as long as it takes tokens.
-/

namespace TaggedSql

/-- The tokens still to be read and the nodes added so far. -/
structure ParseState where
  stream : Stream
  arena : Arena
  deriving DecidableEq, Repr

/-- A step of reading that gives a value or fails. -/
abbrev Rule := EStateM Failure ParseState

namespace Rule

/-! ### Looking at tokens -/

/-- The token `n` places ahead. -/
def peek (n : Nat) : Rule Token := do return (← get).stream.peek n

/-- The token at the front. -/
def current : Rule Token := peek 0

/-- The reserved word at the front. -/
def currentWord? : Rule (Option Word) := do return (← current).kind.word?

/-- Whether a terminal stands at the front. -/
def at? (t : Terminal) : Rule Bool := do return (← current).kind == t.kind

/-- Whether the source ends here. -/
def atEnd : Rule Bool := do return (← current).isEnd

/-- Whether a query begins here. -/
def atQuery : Rule Bool := do
  match ← currentWord? with
  | some .SELECT | some .VALUES | some .WITH => return true
  | _ => return false

/-- Whether an identifier without quotes stands at the front. -/
def atPlainIdentifier : Rule Bool := do return (← current).kind == .identifier false

/-! ### Taking tokens -/

/-- Fails because something else is wanted than the token at the front. -/
def unexpected {α : Type} (e : Expectation) : Rule α := do throw (.unexpected e (← current))

/-- Fails if the token at the front is misspelled. -/
def checkSpelling : Rule Unit := do
  let t ← current
  match t.kind with
  | .problem p => throw (.lexical p t)
  | _ => return

/-- Takes the token at the front, and fails if the one behind it is misspelled. -/
def advance : Rule Unit := do
  modify fun s => { s with stream := s.stream.advance }
  checkSpelling

/-- Takes a terminal if it stands at the front, and says whether it did. -/
def eat (t : Terminal) : Rule Bool := do
  if ← at? t then
    advance
    return true
  else return false

/-- Takes a terminal that has to stand at the front. -/
def expect (t : Terminal) : Rule Unit := do
  unless ← eat t do unexpected (.terminal t)

/-! ### Adding nodes -/

/-- Adds a node. -/
def push (node : Node) : Rule NodeId := do
  let s ← get
  set { s with arena := s.arena.push node }
  return s.arena.size

/-- Adds a tag. -/
def pushTag (t : Tag) : Rule NodeId := push (.tag t)

/-- Adds a list. -/
def pushList (items : List NodeId) : Rule NodeId := do
  let s ← get
  set { s with arena := s.arena.pushList items }
  return s.arena.size

/-- Adds a tag and the list that it heads. -/
def tagged (t : Tag) (items : List NodeId) : Rule NodeId := do
  let head ← pushTag t
  pushList (head :: items)

/-- Adds a node for the token at the front and takes the token. -/
def pushAtom (node : Node) : Rule NodeId := do
  let id ← push node
  advance
  return id

/-- Takes an identifier and adds its name. -/
def identifier : Rule NodeId := do
  let t ← current
  if t.kind.isIdentifier then pushAtom (.name t.span) else unexpected .identifier

/-! ### Repetition -/

/-- Repeats a step, from one value to the next, until it gives none. A step that gives a value but
takes no token ends the repetition too. -/
def iterate {α : Type} (step : α → Rule (Option α)) (a : α) : Rule α := fun s =>
  match step a s with
  | .error e s' => .error e s'
  | .ok none s' => .ok a s'
  | .ok (some b) s' =>
    if s'.stream.size < s.stream.size then iterate step b s' else .ok b s'
  termination_by s => s.stream.size

/-- One or more items divided by a terminal. -/
def separatedBy {α : Type} (t : Terminal) (item : Rule α) : Rule (List α) := do
  let first ← item
  iterate (fun items => do
    if ← eat t then return some (items ++ [← item]) else return none) [first]

/-- One or more items divided by commas. -/
def commaSeparated {α : Type} (item : Rule α) : Rule (List α) :=
  separatedBy (.symbol .comma) item

/-- Names divided by commas. -/
def identifiers : Rule (List NodeId) := commaSeparated identifier

end Rule

/-- The rules that may enclose each other. -/
inductive Entry where
  /-- An expression whose operators bind at least as tightly as the power says. -/
  | expression (power : Nat)
  | query
  /-- What may stand in parentheses among the sources of a query. -/
  | tableSource
  deriving DecidableEq, Repr

/-- What a rule knows of its surroundings: the policy for integers that are too great, and the rules
one level deeper. -/
structure Context where
  policy : OverflowPolicy
  enter : Entry → Rule NodeId

namespace Context

/-- An expression of any operators, one level deeper. -/
def expression (c : Context) : Rule NodeId := c.enter (.expression 0)

/-- One or more expressions divided by commas. -/
def expressions (c : Context) : Rule (List NodeId) := Rule.commaSeparated c.expression

/-- A query, one level deeper. -/
def query (c : Context) : Rule NodeId := c.enter .query

/-- A query that has to begin here. -/
def requiredQuery (c : Context) : Rule NodeId := do
  if ← Rule.atQuery then c.query else Rule.unexpected .query

/-- A query in parentheses. -/
def parenthesizedQuery (c : Context) : Rule NodeId := do
  Rule.expect (.symbol .leftParen)
  let query ← c.requiredQuery
  Rule.expect (.symbol .rightParen)
  return query

end Context

end TaggedSql
