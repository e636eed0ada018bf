import Mathlib
import TaggedSql.Tree.Basic

/-!
# Trees behind other nodes

A tree may be built behind nodes that are in the arena already. Its nodes and its children are then
those of the same tree built alone, with all positions moved: those of nodes by the number of the
nodes before, and the runs of lists by the number of the children before.

* `Arena.behind`, `Tree.behind`: an arena and a tree behind other nodes;
* `Arena.push_behind`, `Arena.pushList_behind`: adding a node to an arena behind other nodes;
* `Arena.form_behind`: the form of a node does not change;
* `Tree.alike_of_moved`: nodes that show the same;
* `Tree.Equivalent`: two trees that cannot be told apart from their roots on;
* `Tree.equivalent_behind`: a tree behind other nodes is equivalent to the tree alone.
-/

namespace TaggedSql

/-- A node behind so many children. -/
def Node.moved (k : Nat) : Node → Node
  | .list r => .list ⟨r.start + k, r.length⟩
  | node => node

namespace Arena

/-- The arena behind the nodes and the children of another one. -/
def behind (a before : Arena) : Arena where
  nodes := before.nodes ++ a.nodes.map (Node.moved before.children.size)
  children := before.children ++ a.children.map (· + before.size)

variable (a before : Arena)

theorem empty_behind : Arena.behind {} before = before := by
  simp [behind]

theorem size_behind : (a.behind before).size = a.size + before.size := by
  rw [size, behind, Array.size_append, Array.size_map, Nat.add_comm]
  rfl

/-! ### Adding nodes -/

theorem push_behind (node : Node) :
    (a.push node).behind before =
      (a.behind before).push (node.moved before.children.size) := by
  simp [behind, push]

theorem pushList_behind (items : List NodeId) :
    (a.pushList items).behind before =
      (a.behind before).pushList (items.map (· + before.size)) := by
  have hchildren : (a.pushList items |>.behind before).children =
      (a.behind before |>.pushList (items.map (· + before.size))).children := by
    apply Array.ext'
    simp [behind, pushList]
  have hnodes : (a.pushList items |>.behind before).nodes =
      (a.behind before |>.pushList (items.map (· + before.size))).nodes := by
    simp [behind, pushList, Node.moved, Nat.add_comm]
  rw [Arena.mk.injEq]
  exact ⟨hnodes, hchildren⟩

/-! ### Looking at nodes -/

theorem node_behind (id : NodeId) :
    (a.behind before).nodes[id + before.size]? =
      a.nodes[id]?.map (Node.moved before.children.size) := by
  show (before.nodes ++ a.nodes.map (Node.moved before.children.size))[id + before.nodes.size]? = _
  rw [Array.getElem?_append_right (Nat.le_add_left _ _), Array.getElem?_map, Nat.add_sub_cancel]

theorem run_behind (r : Run) :
    (a.behind before).run ⟨r.start + before.children.size, r.length⟩ =
      (a.run r).map (· + before.size) := by
  have hlength : r.start + before.children.size = before.children.toList.length + r.start := by
    rw [Array.length_toList, Nat.add_comm]
  rw [run, run, Array.toList_extract, Array.toList_extract, List.extract_eq_take_drop,
    List.extract_eq_take_drop, Nat.add_sub_cancel_left, Nat.add_sub_cancel_left, hlength, behind,
    Array.toList_append, List.map_take, List.map_drop, Array.toList_map]
  show List.take r.length (List.drop (before.children.toList.length + r.start) _) = _
  rw [List.drop_length_add_append]

theorem items_behind (id : NodeId) :
    (a.behind before).items (id + before.size) = (a.items id).map (· + before.size) := by
  rw [items, items, node_behind]
  cases a.nodes[id]? with
  | none => rfl
  | some node =>
    cases node with
    | list r => exact run_behind a before r
    | _ => rfl

/-- The form of a node does not change. -/
theorem form_behind (id : NodeId) : (a.behind before).form (id + before.size) = a.form id := by
  -- Children stand before their list, so the induction is on the position.
  induction id using Nat.strongRecOn with
  | ind id ih =>
    rw [form, form, node_behind]
    cases a.nodes[id]? with
    | none => rfl
    | some node =>
      cases node with
      | list r =>
        show Form.list (((a.behind before).run ⟨r.start + before.children.size, r.length⟩).map _) = _
        rw [run_behind, List.map_map]
        refine congrArg Form.list (List.map_congr_left fun child _ => ?_)
        rw [Function.comp_apply]
        by_cases hlt : child < id
        · rw [if_pos hlt, if_pos (Nat.add_lt_add_right hlt _), ih child hlt]
        · rw [if_neg hlt, if_neg fun h => hlt (Nat.lt_of_add_lt_add_right h)]
      | _ => rfl

end Arena

/-! ### Trees that cannot be told apart -/

/-- Two nodes that show the same: the same form as text and as JSON, and the same tag, value and text. -/
structure Tree.Alike (t u : Tree) (i j : NodeId) : Prop where
  render : u.render j = t.render i
  toJson : u.toJson j = t.toJson i
  tag? : u.tag? j = t.tag? i
  integer? : u.integer? j = t.integer? i
  float? : u.float? j = t.float? i
  span? : u.span? j = t.span? i
  text? : u.text? j = t.text? i
  unescaped : u.unescaped j = t.unescaped i
  bytes? : u.bytes? j = t.bytes? i

/-- Two trees in which each path from the root leads to nodes that show the same, or to none. -/
def Tree.Equivalent (t u : Tree) : Prop :=
  ∀ path, Option.Rel (Tree.Alike t u) (t.descend? t.root path) (u.descend? u.root path)

namespace Tree

/-- Over one source nodes show the same if they have the same form and are the same but for the place
of a run. -/
theorem alike_of_moved {t u : Tree} {i j : NodeId} {k : Nat} (hsource : u.source = t.source)
    (hform : u.form j = t.form i) (hnode : u.node? j = (t.node? i).map (Node.moved k)) :
    Alike t u i j := by
  have hspan : u.span? j = t.span? i := by
    rw [span?, span?, hnode]
    cases t.node? i with
    | none => rfl
    | some node => cases node <;> rfl
  constructor
  case render => rw [render, render, hform, hsource]
  case toJson => exact congrArg Form.toJson hform
  case span? => exact hspan
  case text? => rw [text?, text?, hspan, hsource]
  -- The other accessors look at the node, but never at the run of a list.
  all_goals
    simp only [tag?, integer?, float?, unescaped, bytes?, hnode, hsource]
    cases t.node? i with
    | none => rfl
    | some node => cases node <;> rfl

/-- The tree behind the nodes of an arena. -/
def behind (t : Tree) (before : Arena) : Tree :=
  ⟨t.source, t.arena.behind before, t.root + before.size⟩

variable (t : Tree) (before : Arena)

theorem node?_behind (id : NodeId) :
    (t.behind before).node? (id + before.size) =
      (t.node? id).map (Node.moved before.children.size) :=
  t.arena.node_behind before id

theorem alike_behind (id : NodeId) : Alike t (t.behind before) id (id + before.size) :=
  alike_of_moved rfl (t.arena.form_behind before id) (t.node?_behind before id)

theorem descend?_behind (id : NodeId) (path : List Nat) :
    (t.behind before).descend? (id + before.size) path =
      (t.descend? id path).map (· + before.size) := by
  induction path generalizing id with
  | nil => rfl
  | cons index path ih =>
    have hchild : (t.behind before).child? (id + before.size) index =
        (t.child? id index).map (· + before.size) := by
      rw [child?, child?, items, items, ← List.getElem?_map]
      exact congrArg (·[index]?) (t.arena.items_behind before id)
    rw [descend?, descend?, hchild]
    cases t.child? id index with
    | none => rfl
    | some child => exact ih child

/-- A tree behind other nodes cannot be told from the tree alone. -/
theorem equivalent_behind : t.Equivalent (t.behind before) := by
  intro path
  show Option.Rel _ _ ((t.behind before).descend? (t.root + before.size) path)
  rw [descend?_behind]
  cases t.descend? t.root path with
  | none => exact .none
  | some id => exact .some (t.alike_behind before id)

end Tree

end TaggedSql
