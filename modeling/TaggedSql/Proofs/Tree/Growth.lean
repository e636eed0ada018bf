import Mathlib
import TaggedSql.Tree.Form

/-!
# Growing arenas

Adding nodes to an arena never changes the form of a node that is there already. This holds as long
as the runs of all lists lie inside the child table, which every way of adding nodes preserves.

* `Sound`: the runs of all lists lie inside the child table;
* `Grows a b`: `b` begins with the nodes and the children of `a`, and is sound if `a` is;
* `Grows.form_eq`: a node keeps its form while its arena grows;
* `Holds`, `HoldsAll`: a node, or each of several nodes, is there and has a given form;
* `holds_push`, `holds_pushList`: the form of a node that was just added.
-/

namespace TaggedSql

/-- The form of a node that is no list. -/
def Node.leaf? : Node → Option Form
  | .list _ => none
  | .tag t => some (.tag t)
  | .integer n => some (.integer n)
  | .float x => some (.float x)
  | .name s => some (.name s)
  | .string s => some (.string s)
  | .blob s => some (.blob s)

namespace Arena

variable {a b c : Arena} {id : NodeId} {ids : List NodeId} {f : Form} {fs : List Form}

/-- The runs of all lists lie inside the child table. -/
def Sound (a : Arena) : Prop :=
  ∀ (id : NodeId) (r : Run), a.nodes[id]? = some (.list r) → r.start + r.length ≤ a.children.size

/-- An arena begins with everything that another one holds. -/
structure Grows (a b : Arena) : Prop where
  nodes : a.nodes.toList <+: b.nodes.toList
  children : a.children.toList <+: b.children.toList
  sound : a.Sound → b.Sound

theorem sound_empty : Sound {} := by
  intro id r h
  simp at h

/-! ### Growth is an order -/

theorem Grows.refl (a : Arena) : a.Grows a :=
  ⟨List.prefix_refl _, List.prefix_refl _, id⟩

theorem Grows.trans (hab : a.Grows b) (hbc : b.Grows c) : a.Grows c :=
  ⟨hab.nodes.trans hbc.nodes, hab.children.trans hbc.children, fun h => hbc.sound (hab.sound h)⟩

theorem Grows.size_le (h : a.Grows b) : a.size ≤ b.size := by
  have := h.nodes.length_le
  simpa [size] using this

/-- A node that is there stays where it is. -/
theorem Grows.node_eq (h : a.Grows b) (hid : id < a.size) : b.nodes[id]? = a.nodes[id]? := by
  obtain ⟨more, hmore⟩ := h.nodes
  have hlen : id < a.nodes.toList.length := by simpa [size] using hid
  rw [← Array.getElem?_toList, ← Array.getElem?_toList, ← hmore, List.getElem?_append_left hlen]

/-- A run inside the child table stays as it is. -/
theorem Grows.run_eq (h : a.Grows b) {r : Run} (hr : r.start + r.length ≤ a.children.size) :
    b.run r = a.run r := by
  obtain ⟨more, hmore⟩ := h.children
  have hlen : r.length ≤ (a.children.toList.drop r.start).length := by
    rw [List.length_drop, Array.length_toList]
    omega
  have hstart : r.start ≤ a.children.toList.length := by
    rw [Array.length_toList]
    omega
  rw [run, run, Array.toList_extract, Array.toList_extract, List.extract_eq_take_drop,
    List.extract_eq_take_drop, Nat.add_sub_cancel_left, ← hmore,
    List.drop_append_of_le_length hstart, List.take_append_of_le_length hlen]

/-! ### Forms do not change -/

theorem form_of_leaf {node : Node} (h : a.nodes[id]? = some node) (hleaf : node.leaf? = some f) :
    a.form id = f := by
  rw [form, h]
  cases node with
  | list r => cases hleaf
  | _ => exact Option.some.inj hleaf

theorem form_of_list {r : Run} (h : a.nodes[id]? = some (.list r)) :
    a.form id = .list ((a.run r).map fun child => if child < id then a.form child else .list []) := by
  rw [form, h]

/-- A node keeps its form while its arena grows. -/
theorem Grows.form_eq (ha : a.Sound) (h : a.Grows b) (hid : id < a.size) :
    b.form id = a.form id := by
  -- Children stand before their list, so the induction is on the position.
  induction id using Nat.strongRecOn with
  | ind id ih =>
    obtain ⟨node, hnode⟩ : ∃ node, a.nodes[id]? = some node :=
      ⟨_, Array.getElem?_eq_getElem hid⟩
    have hnode' := (h.node_eq hid).trans hnode
    cases node with
    | list r =>
      rw [form_of_list hnode, form_of_list hnode', h.run_eq (ha id r hnode)]
      congr 1
      refine List.map_congr_left fun child _ => ?_
      by_cases hlt : child < id
      · rw [if_pos hlt, if_pos hlt, ih child hlt (Nat.lt_trans hlt hid)]
      · rw [if_neg hlt, if_neg hlt]
    | _ => rw [form_of_leaf hnode rfl, form_of_leaf hnode' rfl]

/-! ### Nodes with a given form -/

/-- A node is there and has a form. -/
structure Holds (a : Arena) (id : NodeId) (f : Form) : Prop where
  lt : id < a.size
  form : a.form id = f

/-- Each of several nodes is there and has its form. -/
def HoldsAll (a : Arena) (ids : List NodeId) (fs : List Form) : Prop :=
  List.Forall₂ a.Holds ids fs

theorem Holds.mono (h : a.Holds id f) (ha : a.Sound) (hab : a.Grows b) : b.Holds id f :=
  ⟨Nat.lt_of_lt_of_le h.lt hab.size_le, (hab.form_eq ha h.lt).trans h.form⟩

theorem HoldsAll.mono (h : a.HoldsAll ids fs) (ha : a.Sound) (hab : a.Grows b) :
    b.HoldsAll ids fs :=
  List.Forall₂.imp (fun _ _ hid => hid.mono ha hab) h

theorem holdsAll_nil : a.HoldsAll [] [] := List.Forall₂.nil

theorem HoldsAll.cons (hs : a.HoldsAll ids fs) (h : a.Holds id f) :
    a.HoldsAll (id :: ids) (f :: fs) := List.Forall₂.cons h hs

theorem Holds.single (h : a.Holds id f) : a.HoldsAll [id] [f] := holdsAll_nil.cons h

theorem HoldsAll.append {ids' : List NodeId} {fs' : List Form} (h : a.HoldsAll ids fs)
    (h' : a.HoldsAll ids' fs') : a.HoldsAll (ids ++ ids') (fs ++ fs') := by
  induction h with
  | nil => exact h'
  | cons hid _ ih => exact HoldsAll.cons ih hid

theorem HoldsAll.length_eq (h : a.HoldsAll ids fs) : ids.length = fs.length := by
  induction h with
  | nil => rfl
  | cons _ _ ih => simp [ih]

/-- Nodes that are there with their forms are mapped to the forms. -/
theorem HoldsAll.map_form (h : a.HoldsAll ids fs) : ids.map a.form = fs := by
  induction h with
  | nil => rfl
  | cons hid _ ih => rw [List.map_cons, hid.form, ih]

theorem HoldsAll.lt (h : a.HoldsAll ids fs) : ∀ id ∈ ids, id < a.size := by
  induction h with
  | nil => simp
  | cons hid _ ih =>
    intro id hmem
    rcases List.mem_cons.1 hmem with rfl | hmem
    · exact hid.lt
    · exact ih id hmem

/-! ### Adding nodes -/

theorem grows_push {node : Node} (hleaf : node.leaf? = some f) : a.Grows (a.push node) where
  nodes := by simp [push]
  children := List.prefix_refl _
  sound := by
    intro ha id r h
    rw [push, Array.getElem?_push] at h
    split at h
    next => cases h; cases hleaf
    next => exact ha id r h

theorem grows_pushList : a.Grows (a.pushList ids) where
  nodes := by simp [pushList]
  children := by simp [pushList]
  sound := by
    intro ha id r h
    rw [pushList, Array.getElem?_push] at h
    have hsize : (a.pushList ids).children.size = a.children.size + ids.length := by
      rw [pushList, ← Array.length_toList, Array.toList_appendList, List.length_append,
        Array.length_toList]
    rw [hsize]
    split at h
    next =>
      cases h
      exact Nat.le_refl _
    next => exact Nat.le_add_right_of_le (ha id r h)

theorem size_push (node : Node) : (a.push node).size = a.size + 1 := by simp [size, push]

theorem size_pushList : (a.pushList ids).size = a.size + 1 := by simp [size, pushList]

/-- Nodes that are there and the one that was just added are there. -/
theorem lt_concat (hids : ∀ id ∈ ids, id < a.size) (hsize : b.size = a.size + 1) :
    ∀ id ∈ ids ++ [a.size], id < b.size := by
  intro id hid
  rcases List.mem_append.1 hid with hid | hid
  · rw [hsize]
    exact Nat.lt_succ_of_lt (hids id hid)
  · rw [List.mem_singleton.1 hid, hsize]
    exact Nat.lt_succ_self _

/-- A node that was just added and is no list has its own form. -/
theorem holds_push {node : Node} (hleaf : node.leaf? = some f) : (a.push node).Holds a.size f := by
  have hget : (a.push node).nodes[a.size]? = some node := by simp [push, size]
  refine ⟨?_, form_of_leaf hget hleaf⟩
  rw [size_push]
  exact Nat.lt_succ_self _

/-- A list that was just added has the forms of its items. -/
theorem holds_pushList (ha : a.Sound) (h : a.HoldsAll ids fs) :
    (a.pushList ids).Holds a.size (.list fs) := by
  have hget : (a.pushList ids).nodes[a.size]? = some (.list ⟨a.children.size, ids.length⟩) := by
    simp [pushList, size]
  have hrun : (a.pushList ids).run ⟨a.children.size, ids.length⟩ = ids := by
    simp [run, pushList]
  refine ⟨by rw [size_pushList]; exact Nat.lt_succ_self _, ?_⟩
  rw [form_of_list hget, hrun, ← h.map_form]
  congr 1
  refine List.map_congr_left fun child hchild => ?_
  rw [if_pos (h.lt child hchild), grows_pushList.form_eq ha (h.lt child hchild)]

end Arena

end TaggedSql
