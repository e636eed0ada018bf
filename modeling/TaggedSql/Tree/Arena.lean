import TaggedSql.Binary64.Basic
import TaggedSql.Span
import TaggedSql.Tree.Tag

/-!
# The arena of a tree

An arena holds the nodes of a tree in the order in which they were added, and one table with the
children of all lists: the children of a list are a run of that table. Adding a node never changes
what is there, so the position of a node is its identity. Children are added before their list.
-/

namespace TaggedSql

/-- The position of a node in its arena. -/
abbrev NodeId := Nat

/-- The part of the child table that belongs to a list. -/
structure Run where
  start : Nat
  length : Nat
  deriving DecidableEq, Repr

/-- A node of a tree. Names, strings and blobs are spans of the source. -/
inductive Node where
  | list (run : Run)
  | tag (t : Tag)
  | integer (value : Int64)
  | float (value : Binary64)
  | name (span : Span)
  | string (span : Span)
  | blob (span : Span)
  deriving DecidableEq, Repr

/-- The span of a node that has one. -/
def Node.span? : Node → Option Span
  | .name s | .string s | .blob s => some s
  | _ => none

/-- The nodes of a tree and the table of the children of its lists. -/
structure Arena where
  nodes : Array Node := #[]
  children : Array NodeId := #[]
  deriving DecidableEq, Repr, Inhabited

namespace Arena

/-- The number of nodes. -/
def size (a : Arena) : Nat := a.nodes.size

/-- Whether there are no nodes. -/
def isEmpty (a : Arena) : Bool := a.size == 0

/-- Adds a node; its identity is the size of the arena before. -/
def push (a : Arena) (node : Node) : Arena := { a with nodes := a.nodes.push node }

/-- Adds a list of nodes that are there already. -/
def pushList (a : Arena) (items : List NodeId) : Arena where
  nodes := a.nodes.push (.list ⟨a.children.size, items.length⟩)
  children := a.children ++ items

/-- The children in a run. -/
def run (a : Arena) (r : Run) : List NodeId :=
  (a.children.extract r.start (r.start + r.length)).toList

/-- The children of a node; only lists have any. -/
def items (a : Arena) (id : NodeId) : List NodeId :=
  match a.nodes[id]? with
  | some (.list r) => a.run r
  | _ => []

end Arena

end TaggedSql
