import TaggedSql.Proofs.Tree.Growth
import TaggedSql.Tree.Basic

/-!
# Nodes and their owners

While a tree is built some nodes are at hand: they have been added and belong to no list yet. All
other nodes belong to exactly one list. When only the root is at hand, every node has one place in
the tree.

* `Run.Consecutive`: runs that follow each other without gaps;
* `Arena.Ordered`: the tables of an arena are in order, kept by `Ordered.push`, `Ordered.pushList`;
* `Arena.Owned`: every node is at hand or belongs to exactly one list, which was added behind it;
* `Owned.push`, `Owned.pushList`: adding nodes preserves this;
* `Tree.Proper`: a tree without shared nodes and without nodes that do not belong to it;
* `proper_of_owned`: a tree is proper if its root is a list and the only node at hand.
-/

namespace TaggedSql

/-- The run of a list. -/
def Node.run? : Node → Option Run
  | .list r => some r
  | _ => none

/-- Runs that follow each other without gaps from one place of a child table to another. -/
inductive Run.Consecutive : Nat → List Run → Nat → Prop
  | nil (start : Nat) : Consecutive start [] start
  | cons {r : Run} {rs : List Run} {stop : Nat} (h : Consecutive (r.start + r.length) rs stop) :
      Consecutive r.start (r :: rs) stop

theorem Run.Consecutive.concat {start stop length : Nat} {rs : List Run}
    (h : Consecutive start rs stop) :
    Consecutive start (rs ++ [⟨stop, length⟩]) (stop + length) := by
  induction h with
  | nil start => exact .cons (r := ⟨start, length⟩) (.nil _)
  | cons _ ih => exact .cons ih

namespace Arena

variable {a : Arena} {ids items : List NodeId} {id child : NodeId}

/-- The runs of the lists, in the order in which the lists were added. -/
def runs (a : Arena) : List Run := a.nodes.toList.filterMap Node.run?

/-- The tables of an arena are in order: children stand before their lists, and the runs of the lists
cover the child table, one list after the other. -/
structure Ordered (a : Arena) : Prop where
  sound : a.Sound
  below : ∀ id, ∀ child ∈ a.items id, child < id
  runs : Run.Consecutive 0 a.runs a.children.size
  table : (List.range a.size).flatMap a.items = a.children.toList

/-- Every node is at hand or belongs to exactly one list, which was added behind it. -/
structure Owned (a : Arena) (ids : List NodeId) : Prop where
  sound : a.Sound
  /-- The entries of the child table and the nodes at hand are all nodes, each of them once. -/
  perm : (a.children.toList ++ ids).Perm (List.range a.size)
  below : ∀ id, ∀ child ∈ a.items id, child < id
  runs : Run.Consecutive 0 a.runs a.children.size
  /-- The lists have the child table as their items, one list after the other. -/
  table : (List.range a.size).flatMap a.items = a.children.toList

theorem ordered_empty : Ordered {} where
  sound := sound_empty
  below := by
    intro id child h
    simp [items] at h
  runs := .nil 0
  table := rfl

theorem owned_empty : Owned {} [] where
  sound := ordered_empty.sound
  perm := .nil
  below := ordered_empty.below
  runs := ordered_empty.runs
  table := ordered_empty.table

theorem Owned.ordered (h : a.Owned ids) : a.Ordered := ⟨h.sound, h.below, h.runs, h.table⟩

theorem Owned.reorder {ids' : List NodeId} (h : a.Owned ids) (hperm : ids.Perm ids') :
    a.Owned ids' :=
  ⟨h.sound, (hperm.symm.append_left _).trans h.perm, h.below, h.runs, h.table⟩

theorem Owned.lt (h : a.Owned ids) (hid : id ∈ ids) : id < a.size :=
  List.mem_range.1 (h.perm.mem_iff.1 (List.mem_append_right _ hid))

/-! ### The items of lists that are there -/

theorem items_of_le (h : a.size ≤ id) : a.items id = [] := by
  rw [items, Array.getElem?_eq_none h]

/-- A list keeps its items while its arena grows. -/
theorem Grows.items_eq {b : Arena} (ha : a.Sound) (h : a.Grows b) (hid : id < a.size) :
    b.items id = a.items id := by
  rw [items, items, h.node_eq hid]
  cases hnode : a.nodes[id]? with
  | none => rfl
  | some node =>
    cases node with
    | list r => exact h.run_eq (ha id r hnode)
    | _ => rfl

/-- Where children stand before their lists, the form of a list is that of its items. -/
theorem form_of_list_of_below (hbelow : ∀ id, ∀ child ∈ a.items id, child < id) {r : Run}
    (h : a.nodes[id]? = some (.list r)) : a.form id = .list ((a.items id).map a.form) := by
  have hitems : a.items id = a.run r := by rw [items, h]
  rw [form_of_list h, ← hitems]
  congr 1
  refine List.map_congr_left fun child hchild => ?_
  rw [if_pos (hbelow id child hchild)]

/-- Behind a further node with some items the lists have the old child table and these items. -/
theorem flatMap_items_of_grows {b : Arena} (ha : a.Sound) (h : a.Grows b) (hsize : b.size = a.size + 1) :
    (List.range b.size).flatMap b.items =
      (List.range a.size).flatMap a.items ++ b.items a.size := by
  rw [hsize, List.range_succ, List.flatMap_append, List.flatMap_singleton]
  congr 1
  exact List.flatMap_congr fun id hid => h.items_eq ha (List.mem_range.1 hid)

/-- Children stand before their lists if those of a further node do. -/
theorem below_of_grows {b : Arena} (ha : a.Sound) (hbelow : ∀ id, ∀ child ∈ a.items id, child < id)
    (hab : a.Grows b) (hsize : b.size = a.size + 1)
    (hlast : ∀ child ∈ b.items a.size, child < a.size) :
    ∀ id, ∀ child ∈ b.items id, child < id := by
  intro id child hchild
  rcases Nat.lt_trichotomy id a.size with hid | rfl | hid
  · rw [hab.items_eq ha hid] at hchild
    exact hbelow id child hchild
  · exact hlast child hchild
  · rw [items_of_le (by omega)] at hchild
    cases hchild

/-! ### Adding nodes -/

theorem grows_push_of_run? {node : Node} (hnode : node.run? = none) : a.Grows (a.push node) := by
  cases node with
  | list r => cases hnode
  | _ => exact grows_push rfl

theorem items_push {node : Node} (hnode : node.run? = none) : (a.push node).items a.size = [] := by
  have hget : (a.push node).nodes[a.size]? = some node := by simp [Arena.push, size]
  rw [items, hget]
  cases node with
  | list r => cases hnode
  | _ => rfl

theorem items_pushList (a : Arena) (items : List NodeId) :
    (a.pushList items).items a.size = items := by
  have hget : (a.pushList items).nodes[a.size]? =
      some (.list ⟨a.children.size, items.length⟩) := by simp [Arena.pushList, size]
  rw [Arena.items, hget]
  simp [run, Arena.pushList]

theorem Ordered.push {node : Node} (h : a.Ordered) (hnode : node.run? = none) :
    (a.push node).Ordered := by
  have hgrows : a.Grows (a.push node) := grows_push_of_run? hnode
  have hitems := items_push (a := a) hnode
  refine ⟨hgrows.sound h.sound, ?_, ?_, ?_⟩
  · refine below_of_grows h.sound h.below hgrows (size_push node) ?_
    rw [hitems]
    intro child hchild
    cases hchild
  · have hruns : (a.push node).runs = a.runs := by
      simp [Arena.runs, Arena.push, hnode]
    rw [hruns]
    exact h.runs
  · rw [flatMap_items_of_grows h.sound hgrows (size_push node), h.table, hitems, List.append_nil]
    rfl

theorem children_pushList (a : Arena) (items : List NodeId) :
    (a.pushList items).children.toList = a.children.toList ++ items := by
  simp [Arena.pushList]

/-- A list of nodes that are there leaves the tables in order. -/
theorem Ordered.pushList (h : a.Ordered) (hlt : ∀ child ∈ items, child < a.size) :
    (a.pushList items).Ordered := by
  have hgrows : a.Grows (a.pushList items) := grows_pushList
  have hitems := items_pushList a items
  refine ⟨hgrows.sound h.sound, ?_, ?_, ?_⟩
  · refine below_of_grows h.sound h.below hgrows size_pushList ?_
    rw [hitems]
    exact hlt
  · have hruns : (a.pushList items).runs = a.runs ++ [⟨a.children.size, items.length⟩] := by
      simp [Arena.runs, Arena.pushList, Node.run?]
    have hsize : (a.pushList items).children.size = a.children.size + items.length := by
      rw [← Array.length_toList, children_pushList, List.length_append, Array.length_toList]
    rw [hruns, hsize]
    exact h.runs.concat
  · rw [flatMap_items_of_grows h.sound hgrows size_pushList, h.table, hitems, children_pushList]

/-- A node that is no list is at hand when it has been added. -/
theorem Owned.push {node : Node} (h : a.Owned ids) (hnode : node.run? = none) :
    (a.push node).Owned (ids ++ [a.size]) := by
  have hordered := h.ordered.push hnode
  refine ⟨hordered.sound, ?_, hordered.below, hordered.runs, hordered.table⟩
  rw [size_push, List.range_succ, ← List.append_assoc]
  exact h.perm.append_right _

/-- A list takes its items, and is at hand itself. -/
theorem Owned.pushList (h : a.Owned (ids ++ items)) :
    (a.pushList items).Owned (ids ++ [a.size]) := by
  have hordered := h.ordered.pushList fun child hchild => h.lt (List.mem_append_right _ hchild)
  refine ⟨hordered.sound, ?_, hordered.below, hordered.runs, hordered.table⟩
  rw [children_pushList, size_pushList, List.range_succ, ← List.append_assoc]
  refine List.Perm.append_right _ (.trans ?_ h.perm)
  rw [List.append_assoc]
  exact List.perm_append_comm.append_left _

/-! ### Places in the child table -/

theorem Owned.nodup (h : a.Owned ids) : (a.children.toList ++ ids).Nodup :=
  h.perm.symm.nodup List.nodup_range

/-- A node in the child table belongs to a list. -/
theorem Owned.exists_owner (h : a.Owned ids) (hchild : child ∈ a.children.toList) :
    ∃ id < a.size, child ∈ a.items id := by
  rw [← h.table] at hchild
  obtain ⟨id, hid, hmem⟩ := List.mem_flatMap.1 hchild
  exact ⟨id, List.mem_range.1 hid, hmem⟩

theorem Owned.mem_children (h : a.Owned ids) (hchild : child ∈ a.items id) :
    child ∈ a.children.toList := by
  rw [← h.table]
  refine List.mem_flatMap.2 ⟨id, List.mem_range.2 ?_, hchild⟩
  by_contra hid
  rw [items_of_le (Nat.le_of_not_lt hid)] at hchild
  cases hchild

/-- A node belongs to one list only, and has one place in it. -/
theorem Owned.owner_unique (h : a.Owned ids) {id id' index index' : Nat}
    (hchild : (a.items id)[index]? = some child) (hchild' : (a.items id')[index']? = some child) :
    id = id' ∧ index = index' := by
  have hnodup : ((List.range a.size).flatMap a.items).Nodup := by
    rw [h.table]
    exact (List.nodup_append.1 h.nodup).1
  obtain ⟨hlists, hdisjoint⟩ := List.nodup_flatMap.1 hnodup
  have hmem := List.mem_of_getElem? hchild
  have hmem' := List.mem_of_getElem? hchild'
  have hrange : ∀ id, child ∈ a.items id → id ∈ List.range a.size := by
    intro id hmem
    by_contra hid
    rw [items_of_le (by simpa using hid)] at hmem
    cases hmem
  obtain rfl : id = id' := by
    by_contra hne
    have : Std.Symm (Function.onFun List.Disjoint a.items) := ⟨fun _ _ h => h.symm⟩
    exact hdisjoint.forall (hrange id hmem) (hrange id' hmem') hne hmem hmem'
  obtain ⟨hindex, _⟩ := List.getElem?_eq_some_iff.1 hchild
  have hinj := List.getElem?_inj (j := index') hindex (hlists id (hrange id hmem))
  exact ⟨rfl, hinj.1 (hchild.trans hchild'.symm)⟩

end Arena

/-! ### Proper trees -/

namespace Tree

variable {t : Tree} {id : NodeId}

/-- A tree without shared nodes and without nodes that do not belong to it. -/
structure Proper (t : Tree) : Prop where
  /-- The root is a list, and was added last. -/
  last : t.root + 1 = t.arena.size
  list : t.isList t.root = true
  /-- Every other node stands in the child table once, and the root does not. -/
  once : ∀ id < t.arena.size, id ≠ t.root → t.arena.children.toList.count id = 1
  rootless : t.root ∉ t.arena.children.toList
  entries : t.arena.children.size + 1 = t.arena.size
  /-- The children of a list were added before it. -/
  below : ∀ id, ∀ child ∈ t.items id, child < id
  /-- The runs of the lists follow each other and cover the child table. -/
  runs : Run.Consecutive 0 t.arena.runs t.arena.children.size
  /-- Exactly one path leads from the root to each node. -/
  path : ∀ id < t.arena.size, ∃! path, t.descend? t.root path = some id

theorem descend?_concat (t : Tree) (id : NodeId) (path : List Nat) (index : Nat) :
    t.descend? id (path ++ [index]) = (t.descend? id path).bind (t.child? · index) := by
  induction path generalizing id with
  | nil =>
    rw [List.nil_append, descend?, descend?, Option.bind_some]
    cases t.child? id index <;> rfl
  | cons first path ih =>
    rw [List.cons_append, descend?, descend?]
    cases t.child? id first with
    | none => rfl
    | some child => exact ih child

/-- A path that leads below the root ends with a step from the owner. -/
theorem exists_step {path : List Nat} (hid : id ≠ t.root)
    (hpath : t.descend? t.root path = some id) :
    ∃ before index owner, path = before ++ [index] ∧ t.descend? t.root before = some owner ∧
      t.child? owner index = some id := by
  cases path using List.reverseRecOn with
  | nil => exact absurd (Option.some.inj hpath).symm hid
  | append_singleton before index =>
    rw [descend?_concat] at hpath
    obtain ⟨owner, howner, hchild⟩ := Option.bind_eq_some_iff.1 hpath
    exact ⟨before, index, owner, rfl, howner, hchild⟩

theorem root_notMem (h : t.arena.Owned [t.root]) : t.root ∉ t.arena.children.toList :=
  fun hroot => (List.nodup_append.1 h.nodup).2.2 _ hroot _ List.mem_cons_self rfl

theorem mem_children (h : t.arena.Owned [t.root]) (hid : id < t.arena.size) (hroot : id ≠ t.root) :
    id ∈ t.arena.children.toList := by
  rcases List.mem_append.1 (h.perm.mem_iff.2 (List.mem_range.2 hid)) with hmem | hmem
  · exact hmem
  · exact absurd (List.mem_singleton.1 hmem) hroot

/-- Exactly one path leads from the root to each node. -/
theorem existsUnique_path (h : t.arena.Owned [t.root]) (hid : id < t.arena.size) :
    ∃! path, t.descend? t.root path = some id := by
  -- Owners stand behind what they own, so the induction is on the nodes behind a node.
  induction hrest : t.arena.size - id using Nat.strongRecOn generalizing id with
  | ind rest ih =>
    by_cases hroot : id = t.root
    · subst hroot
      refine ⟨[], rfl, fun path hpath => ?_⟩
      cases path using List.reverseRecOn with
      | nil => rfl
      | append_singleton before index =>
        rw [descend?_concat] at hpath
        obtain ⟨owner, _, hchild⟩ := Option.bind_eq_some_iff.1 hpath
        exact absurd (h.mem_children (List.mem_of_getElem? hchild)) (root_notMem h)
    · obtain ⟨owner, howner, hmem⟩ := h.exists_owner (mem_children h hid hroot)
      have hlt : (id : Nat) < owner := h.below owner id hmem
      obtain ⟨index, hindex⟩ := List.mem_iff_getElem?.1 hmem
      obtain ⟨path, hpath, hunique⟩ := ih _ (hrest ▸ Nat.sub_lt_sub_left hid hlt) howner rfl
      refine ⟨path ++ [index], ?_, fun path' hpath' => ?_⟩
      · show t.descend? t.root (path ++ [index]) = some id
        rw [descend?_concat, hpath]
        exact hindex
      · obtain ⟨before, index', owner', rfl, hbefore, hchild⟩ := exists_step hroot hpath'
        obtain ⟨rfl, rfl⟩ := h.owner_unique hindex hchild
        rw [hunique before hbefore]

/-- A tree is proper if its root is a list and the only node at hand. -/
theorem proper_of_owned (h : t.arena.Owned [t.root]) (hlist : t.isList t.root = true) :
    t.Proper := by
  have hroot : t.root < t.arena.size := h.lt List.mem_cons_self
  have hsize : t.arena.children.size + 1 = t.arena.size := by
    have := h.perm.length_eq
    simpa using this
  refine ⟨?_, hlist, fun id hid hne => ?_, root_notMem h, hsize, h.below, h.runs,
    fun id hid => existsUnique_path h hid⟩
  · -- A node behind the root would belong to a list behind it, and so on beyond the last node.
    by_contra hlast
    have hpos : 0 < t.arena.size := Nat.zero_lt_of_lt hroot
    have hne : t.arena.size - 1 ≠ t.root :=
      fun heq => hlast ((congrArg (· + 1) heq.symm).trans (Nat.sub_add_cancel hpos))
    have hmem := mem_children h (Nat.sub_one_lt (Nat.ne_of_gt hpos)) hne
    obtain ⟨owner, howner, hchild⟩ := h.exists_owner hmem
    exact absurd (h.below owner _ hchild) (Nat.not_lt.2 (Nat.le_sub_one_of_lt howner))
  · exact List.count_eq_one_of_mem (List.nodup_append.1 h.nodup).1 (mem_children h hid hne)

end Tree

end TaggedSql
