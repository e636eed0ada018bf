import TaggedSql.Json.Basic
import TaggedSql.Tree.Arena

/-!
# Forms

A form is a node with everything below it: an S-expression whose atoms are tags, numbers and spans
of the source. `Arena.form` unfolds a node. Children stand before their list in an arena; where a
table says otherwise an empty list is put, so unfolding ends.

* `render`: the form as text, `(:Select (a) (:From t))`;
* `toJson`: the form as a JSON value in which each node is an object with one member.
-/

namespace TaggedSql

/-- A node with everything below it. -/
inductive Form where
  | list (items : List Form)
  | tag (t : Tag)
  | integer (value : Int64)
  | float (value : Binary64)
  | name (span : Span)
  | string (span : Span)
  | blob (span : Span)

namespace Arena

/-- The form of a node. -/
def form (a : Arena) (id : NodeId) : Form :=
  match a.nodes[id]? with
  | some (.list r) =>
    .list ((a.run r).map fun child => if child < id then a.form child else .list [])
  | some (.tag t) => .tag t
  | some (.integer n) => .integer n
  | some (.float x) => .float x
  | some (.name s) => .name s
  | some (.string s) => .string s
  | some (.blob s) => .blob s
  | none => .list []
  termination_by id

end Arena

namespace Form

/-- The characters of a source that a span covers; none where it covers no text. -/
def sliceOf (source : List Char) (s : Span) : String :=
  String.ofList ((Text.slice? source s.start s.stop).getD [])

mutual

/-- The text of a form, with the spans read from the source. -/
def render (source : List Char) : Form → String
  | .list items => "(" ++ String.intercalate " " (renderItems source items) ++ ")"
  | .tag t => ":" ++ t.name
  | .integer n => toString n.toInt
  | .float x => Binary64.Layout.form.write x
  | .name s => sliceOf source s
  | .string s => "'" ++ sliceOf source s ++ "'"
  | .blob s => "X'" ++ sliceOf source s ++ "'"

/-- The texts of the items of a list. -/
def renderItems (source : List Char) : List Form → List String
  | [] => []
  | item :: items => render source item :: renderItems source items

end

theorem renderItems_eq_map (source : List Char) (items : List Form) :
    renderItems source items = items.map (render source) := by
  induction items with
  | nil => rfl
  | cons item items ih => rw [renderItems, ih, List.map_cons]

/-- A span as a JSON object. -/
def spanJson (s : Span) : Json := .object [("start", .integer s.start), ("end", .integer s.stop)]

mutual

/-- The JSON value of a form: an object whose key is the kind of the node. A number that is not
finite has no JSON text and becomes null. -/
def toJson : Form → Json
  | .list items => .object [("List", .array (toJsonItems items))]
  | .tag t => .object [("KW", .string t.name)]
  | .integer n => .object [("Integer", .integer n.toInt)]
  | .float x => .object [("Float", if x.isFinite then .float x else .null)]
  | .name s => .object [("Id", spanJson s)]
  | .string s => .object [("String", spanJson s)]
  | .blob s => .object [("Binary", spanJson s)]

/-- The JSON values of the items of a list. -/
def toJsonItems : List Form → List Json
  | [] => []
  | item :: items => toJson item :: toJsonItems items

end

theorem toJsonItems_eq_map (items : List Form) : toJsonItems items = items.map toJson := by
  induction items with
  | nil => rfl
  | cons item items ih => rw [toJsonItems, ih, List.map_cons]

end Form

end TaggedSql
