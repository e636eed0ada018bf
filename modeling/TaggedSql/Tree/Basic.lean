import TaggedSql.Text.Digits
import TaggedSql.Text.Quoted
import TaggedSql.Tree.Form

/-!
# Trees

A tree is an arena with its root and with the source that its spans point into. Every node of the
arena can be asked for its children, its value and its text, whether or not it lies below the root.
-/

namespace TaggedSql

/-- The nodes read from a source, and the one that stands for the whole. -/
structure Tree where
  source : String
  arena : Arena
  root : NodeId
  deriving DecidableEq, Repr

/-- The text before a name cannot be formed: its span begins beyond the source or inside a
character. -/
structure OutsideSource where
  span : Span
  deriving DecidableEq, Repr

namespace Tree

/-- The node at a position. -/
def node? (t : Tree) (id : NodeId) : Option Node := t.arena.nodes[id]?

/-- The children of a node. -/
def items (t : Tree) (id : NodeId) : List NodeId := t.arena.items id

/-- The child of a node with an index. -/
def child? (t : Tree) (id : NodeId) (index : Nat) : Option NodeId := (t.items id)[index]?

/-- The node that a path of child indices leads to. -/
def descend? (t : Tree) (id : NodeId) : List Nat → Option NodeId
  | [] => some id
  | index :: path => (t.child? id index).bind (t.descend? · path)

/-- The tag that a node is. -/
def tag? (t : Tree) (id : NodeId) : Option Tag :=
  match t.node? id with
  | some (.tag tag) => some tag
  | _ => none

/-- The tag that heads a list. -/
def headTag? (t : Tree) (id : NodeId) : Option Tag := (t.child? id 0).bind t.tag?

/-- The value of an integer. -/
def integer? (t : Tree) (id : NodeId) : Option Int64 :=
  match t.node? id with
  | some (.integer n) => some n
  | _ => none

/-- The value of a double-precision number. -/
def float? (t : Tree) (id : NodeId) : Option Binary64 :=
  match t.node? id with
  | some (.float x) => some x
  | _ => none

/-- Whether a node is a list. -/
def isList (t : Tree) (id : NodeId) : Bool :=
  match t.node? id with
  | some (.list _) => true
  | _ => false

/-- The span of a name, string or blob. -/
def span? (t : Tree) (id : NodeId) : Option Span := (t.node? id).bind Node.span?

/-- The text of a name, string or blob as written between any quotes. -/
def text? (t : Tree) (id : NodeId) : Option String := (t.span? id).map (·.slice t.source)

/-- The quote that stands right before a name, if one does. -/
def quoteBefore? (source : List Char) (s : Span) : Except OutsideSource (Option Char) :=
  match Text.takeBytes? source s.start with
  | none => .error ⟨s⟩
  | some before => .ok (before.getLast?.filter fun c => c == '\x22' || c == '\x60')

/-- The text of a name or a string with each doubled quote made single. A name counts as quoted if
a quote stands right before it. -/
def unescaped (t : Tree) (id : NodeId) : Except OutsideSource (Option String) :=
  match t.node? id with
  | some (.string s) =>
    .ok (some (String.ofList (Text.undouble '\x27' (s.slice t.source).toList)))
  | some (.name s) => do
    let text := s.slice t.source
    match ← quoteBefore? t.source.toList s with
    | some quote => return some (String.ofList (Text.undouble quote text.toList))
    | none => return some text
  | _ => .ok none

/-- The bytes that a blob spells. -/
def bytes? (t : Tree) (id : NodeId) : Option (List UInt8) :=
  match t.node? id with
  | some (.blob s) => Text.hexBytes? (s.slice t.source).toList
  | _ => none

/-- The form of a node. -/
def form (t : Tree) (id : NodeId) : Form := t.arena.form id

/-- The text of the form of a node. -/
def render (t : Tree) (id : NodeId) : String := (t.form id).render t.source.toList

/-- The text of a node together with its position. -/
def describe (t : Tree) (id : NodeId) : String :=
  "NodeRef(" ++ toString id ++ ": " ++ t.render id ++ ")"

/-- The JSON value of a node. -/
def toJson (t : Tree) (id : NodeId) : Json := (t.form id).toJson

end Tree

/-- The children of a node that are still to come, taken from either end. -/
structure Children where
  ids : List NodeId
  deriving DecidableEq, Repr

namespace Children

/-- All children of a node. -/
def of (t : Tree) (id : NodeId) : Children := ⟨t.items id⟩

/-- The number of children still to come. -/
def size (c : Children) : Nat := c.ids.length

/-- Takes the first child. -/
def next (c : Children) : Option NodeId × Children := (c.ids.head?, ⟨c.ids.tail⟩)

/-- Takes the last child. -/
def nextBack (c : Children) : Option NodeId × Children := (c.ids.getLast?, ⟨c.ids.dropLast⟩)

end Children

end TaggedSql
