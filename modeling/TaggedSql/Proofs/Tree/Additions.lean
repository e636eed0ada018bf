import TaggedSql.Proofs.Grammar.Running
import TaggedSql.Proofs.Tree.Ownership
import TaggedSql.Proofs.Tree.Relocation

/-!
# Building an arena

An arena is built by one addition after the other. Each of them hands out the position of its node,
and the items of a list are positions that were handed out before: in any order, some of them more than
once, some of them not at all. What has been added stays as it is, whatever is added behind it and
whichever node becomes the root.

* `Arena.follow?`: what is found below a node by following the tables, without a guard;
* `Addition`, `Builder`: the nodes to be added, and the arena that grows;
* `Builder.Holds`: what a builder holds of the additions so far, kept by each of them;
* `Tree.Records`: what a tree shows of the additions that it was built by;
* `additions_are_kept`: it shows all of them, and what it shows of them never changes.
-/

namespace TaggedSql

/-! ### Following the tables -/

theorem mapM_eq_some_map {α β : Type} {f : α → Option β} {g : α → β} {xs : List α}
    (h : ∀ x ∈ xs, f x = some (g x)) : xs.mapM f = some (xs.map g) := by
  induction xs with
  | nil => rfl
  | cons x xs ih =>
    have hx := h x List.mem_cons_self
    have hxs := ih fun y hy => h y (List.mem_cons_of_mem x hy)
    rw [List.mapM_cons, hx, hxs]
    rfl

namespace Arena

variable {a : Arena} {id : NodeId}

/-- What is put together below a node by following the tables, at most so many levels deep: a leaf is
taken for its form, and a list for what its items are taken for. Nothing is found if the levels do not
suffice, or if a position or a run lies outside its table. -/
def follow? {α : Type} (leaf : Form → α) (list : List α → α) (a : Arena) :
    Nat → NodeId → Option α
  | 0, _ => none
  | levels + 1, id => do
    match ← a.nodes[id]? with
    | .list r =>
      if r.start + r.length ≤ a.children.size then
        return list (← (a.run r).mapM (follow? leaf list a levels))
      else none
    | node => return leaf (← node.leaf?)

section

variable {α : Type} {leaf : Form → α} {list : List α → α} {levels : Nat}

theorem follow?_of_leaf {node : Node} {f : Form} (h : a.nodes[id]? = some node)
    (hleaf : node.leaf? = some f) : a.follow? leaf list (levels + 1) id = some (leaf f) := by
  cases node with
  | list r => cases hleaf
  | _ => simp [follow?, h, hleaf]

theorem follow?_of_list {r : Run} {xs : List α} (h : a.nodes[id]? = some (.list r))
    (hr : r.start + r.length ≤ a.children.size)
    (hxs : (a.run r).mapM (a.follow? leaf list levels) = some xs) :
    a.follow? leaf list (levels + 1) id = some (list xs) := by
  simp [follow?, h, hr, hxs]

end

/-- Following the tables comes to an end, and not more levels deep than the position of a node says:
what is found is what the form of the node is taken for. -/
theorem Ordered.follow?_eq {α : Type} {F : Form → α} {list : List α → α} {levels : Nat}
    (ha : a.Ordered) (hlist : ∀ fs, F (.list fs) = list (fs.map F)) (hid : id < a.size)
    (hlevels : id < levels) : a.follow? F list levels id = some (F (a.form id)) := by
  -- Items stand before their list, so the levels that are left suffice for them.
  induction levels generalizing id with
  | zero => exact absurd hlevels (Nat.not_lt_zero id)
  | succ levels ih =>
    obtain ⟨node, hnode⟩ : ∃ node, a.nodes[id]? = some node :=
      ⟨_, Array.getElem?_eq_getElem hid⟩
    cases node with
    | list r =>
      have hitems : a.items id = a.run r := by rw [items, hnode]
      have hfound : (a.run r).mapM (a.follow? F list levels) =
          some ((a.run r).map fun child => F (a.form child)) := by
        apply mapM_eq_some_map
        intro child hchild
        have hlt : child < id := ha.below id child (hitems ▸ hchild)
        exact ih (Nat.lt_trans hlt hid) (Nat.lt_of_lt_of_le hlt (Nat.le_of_lt_succ hlevels))
      rw [follow?_of_list hnode (ha.sound id r hnode) hfound, form_of_list_of_below ha.below hnode,
        hlist, List.map_map, hitems]
      rfl
    | _ => rw [follow?_of_leaf hnode rfl, form_of_leaf hnode rfl]

end Arena

namespace Tree

/-- The form of a node, found by following the tables. -/
def followForm? (t : Tree) : Nat → NodeId → Option Form := t.arena.follow? (fun f => f) .list

/-- The text of a node, found by following the tables. -/
def followText? (t : Tree) : Nat → NodeId → Option String :=
  t.arena.follow? (Form.render t.source.toList)
    fun texts => "(" ++ String.intercalate " " texts ++ ")"

/-- The JSON value of a node, found by following the tables. -/
def followJson? (t : Tree) : Nat → NodeId → Option Json :=
  t.arena.follow? Form.toJson fun values => .object [("List", .array values)]

variable {t : Tree} {id : NodeId} {levels : Nat}

theorem followForm?_eq (h : t.arena.Ordered) (hid : id < t.arena.size) (hlevels : id < levels) :
    t.followForm? levels id = some (t.form id) := by
  apply h.follow?_eq ?_ hid hlevels
  intro fs
  rw [List.map_id']

theorem followText?_eq (h : t.arena.Ordered) (hid : id < t.arena.size) (hlevels : id < levels) :
    t.followText? levels id = some (t.render id) := by
  apply h.follow?_eq ?_ hid hlevels
  intro fs
  rw [Form.render, Form.renderItems_eq_map]

theorem followJson?_eq (h : t.arena.Ordered) (hid : id < t.arena.size) (hlevels : id < levels) :
    t.followJson? levels id = some (t.toJson id) := by
  apply h.follow?_eq ?_ hid hlevels
  intro fs
  rw [Form.toJson, Form.toJsonItems_eq_map]

end Tree

/-! ### Additions -/

/-- A node to be added: one that is no list, or a list of nodes that have been added. -/
inductive Addition where
  | leaf (node : Node) (plain : node.run? = none)
  | list (items : List NodeId)

namespace Addition

/-- The addition of a tag. -/
def tag (t : Tag) : Addition := .leaf (.tag t) rfl

/-- The addition of a name. -/
def name (s : Span) : Addition := .leaf (.name s) rfl

/-- The arena behind an addition. -/
def addTo (a : Arena) : Addition → Arena
  | .leaf node _ => a.push node
  | .list items => a.pushList items

/-- The rule that adds the node, and gives the position that it hands out. -/
def rule : Addition → Rule NodeId
  | .leaf node _ => Rule.push node
  | .list items => Rule.pushList items

/-- What is added is the node at a position. -/
def IsAt (a : Arena) (id : NodeId) : Addition → Prop
  | .leaf node _ => a.nodes[id]? = some node
  | .list items => (∃ r, a.nodes[id]? = some (.list r)) ∧ a.items id = items

variable {a b : Arena} {c : Addition} {id : NodeId}

theorem rule_run (c : Addition) (s : ParseState) :
    c.rule s = .ok s.arena.size ⟨s.stream, c.addTo s.arena⟩ := by
  cases c <;> rfl

theorem size_addTo : (c.addTo a).size = a.size + 1 := by
  cases c with
  | leaf node plain => exact Arena.size_push node
  | list items => exact Arena.size_pushList

theorem grows_addTo : a.Grows (c.addTo a) := by
  cases c with
  | leaf node plain => exact Arena.grows_push_of_run? plain
  | list items => exact Arena.grows_pushList

theorem isAt_addTo : c.IsAt (c.addTo a) a.size := by
  cases c with
  | leaf node plain => simp [IsAt, addTo, Arena.push, Arena.size]
  | list items =>
    refine ⟨⟨⟨a.children.size, items.length⟩, ?_⟩, Arena.items_pushList a items⟩
    simp [addTo, Arena.pushList, Arena.size]

theorem IsAt.mono (h : c.IsAt a id) (ha : a.Sound) (hab : a.Grows b) (hid : id < a.size) :
    c.IsAt b id := by
  cases c with
  | leaf node plain => exact (hab.node_eq hid).trans h
  | list items =>
    obtain ⟨⟨r, hr⟩, hitems⟩ := h
    exact ⟨⟨r, (hab.node_eq hid).trans hr⟩, (hab.items_eq ha hid).trans hitems⟩

end Addition

/-- An arena to which nodes are added, with the positions that have been handed out. -/
structure Builder where
  handed : List NodeId := []
  arena : Arena := {}

namespace Builder

/-- The builder behind an addition; the position handed out is that of the new node. -/
def add (b : Builder) (c : Addition) : Builder := ⟨b.handed ++ [b.arena.size], c.addTo b.arena⟩

/-- The builder behind several additions. -/
def after (b : Builder) (cs : List Addition) : Builder := cs.foldl add b

/-- The items of a list have been handed out before. -/
def Allows (b : Builder) : Addition → Prop
  | .leaf _ _ => True
  | .list items => ∀ child ∈ items, child ∈ b.handed

/-- Each of several additions is allowed behind those before it. -/
def AllowsAll (b : Builder) : List Addition → Prop
  | [] => True
  | c :: cs => b.Allows c ∧ (b.add c).AllowsAll cs

instance decidableAllows (b : Builder) : (c : Addition) → Decidable (b.Allows c)
  | .leaf _ _ => .isTrue trivial
  | .list items => inferInstanceAs (Decidable (∀ child ∈ items, child ∈ b.handed))

instance decidableAllowsAll : (b : Builder) → (cs : List Addition) → Decidable (b.AllowsAll cs)
  | _, [] => .isTrue trivial
  | b, c :: cs =>
    have := decidableAllowsAll (b.add c) cs
    inferInstanceAs (Decidable (b.Allows c ∧ (b.add c).AllowsAll cs))

/-- The tree of what has been added, with a root. -/
def finish (b : Builder) (source : String) (root : NodeId) : Tree := ⟨source, b.arena, root⟩

/-- What a builder holds of the additions so far: each of them at its position, in tables that are in
order. -/
structure Holds (b : Builder) (cs : List Addition) : Prop where
  handed : b.handed = List.range cs.length
  size : b.arena.size = cs.length
  ordered : b.arena.Ordered
  isAt : ∀ (id : NodeId) (c : Addition), cs[id]? = some c → c.IsAt b.arena id

variable {b : Builder} {c : Addition} {cs : List Addition}

theorem holds_nil : Holds {} [] where
  handed := rfl
  size := rfl
  ordered := Arena.ordered_empty
  isAt := by
    intro id c hc
    cases hc

theorem ordered_addTo (h : b.Holds cs) (hc : b.Allows c) : (c.addTo b.arena).Ordered := by
  cases c with
  | leaf node plain => exact h.ordered.push plain
  | list items =>
    apply h.ordered.pushList
    intro child hchild
    have hhanded := hc child hchild
    rw [h.handed, ← h.size] at hhanded
    exact List.mem_range.1 hhanded

/-- An allowed addition is kept together with those before it. -/
theorem Holds.add (h : b.Holds cs) (hc : b.Allows c) : (b.add c).Holds (cs ++ [c]) where
  handed := by
    rw [Builder.add, h.handed, h.size, List.length_append, List.length_singleton, List.range_succ]
  size := by
    rw [Builder.add, Addition.size_addTo, h.size, List.length_append, List.length_singleton]
  ordered := ordered_addTo h hc
  isAt := by
    intro id d hd
    by_cases hid : id < cs.length
    · rw [List.getElem?_append_left hid] at hd
      exact (h.isAt id d hd).mono h.ordered.sound Addition.grows_addTo (h.size ▸ hid)
    · have hlast : id = cs.length := by
        obtain ⟨hlt, _⟩ := List.getElem?_eq_some_iff.1 hd
        rw [List.length_append, List.length_singleton] at hlt
        exact Nat.le_antisymm (Nat.le_of_lt_succ hlt) (Nat.not_lt.1 hid)
      subst hlast
      rw [List.getElem?_concat_length] at hd
      cases hd
      rw [← h.size]
      exact Addition.isAt_addTo

/-- Allowed additions are kept together with those before them. -/
theorem Holds.after {more : List Addition} (h : b.Holds cs) (hmore : b.AllowsAll more) :
    (b.after more).Holds (cs ++ more) := by
  induction more generalizing b cs with
  | nil =>
    rw [List.append_nil]
    exact h
  | cons c more ih =>
    obtain ⟨hc, hmore⟩ := hmore
    rw [List.append_cons]
    exact ih (h.add hc) hmore

theorem holds_after (h : AllowsAll {} cs) : (after {} cs).Holds cs := holds_nil.after h

/-- Additions only extend the tables, whatever they are. -/
theorem grows_after (b : Builder) (cs : List Addition) : b.arena.Grows (b.after cs).arena := by
  induction cs generalizing b with
  | nil => exact Arena.Grows.refl _
  | cons c cs ih => exact Addition.grows_addTo.trans (ih (b.add c))

/-- The rules that add nodes one after the other hand out one position after the other. -/
theorem rules_run (b : Builder) (cs : List Addition) (stream : Stream) :
    cs.mapM Addition.rule ⟨stream, b.arena⟩ =
      .ok (List.range' b.arena.size cs.length) ⟨stream, (b.after cs).arena⟩ := by
  induction cs generalizing b with
  | nil => rfl
  | cons c cs ih =>
    have hrest := ih (b.add c)
    rw [Builder.add, Addition.size_addTo] at hrest
    rw [List.mapM_cons, Rule.bind_of_ok (Addition.rule_run c _), Rule.bind_of_ok hrest,
      List.length_cons, List.range'_succ]
    rfl

end Builder

/-! ### Finished trees -/

/-- What a tree shows of the additions that it was built by. -/
structure Tree.Records (t : Tree) (cs : List Addition) : Prop where
  size : t.arena.size = cs.length
  leaf : ∀ (id : NodeId) node plain, cs[id]? = some (.leaf node plain) → t.node? id = some node
  /-- The children of a list are its items, in their order. -/
  list : ∀ (id : NodeId) items, cs[id]? = some (.list items) →
    t.isList id = true ∧ t.items id = items
  below : ∀ id, ∀ child ∈ t.items id, child < id
  /-- Following the tables comes to an end at every node, and finds its form, text and JSON value. -/
  found : ∀ id < t.arena.size, ∀ levels > id, t.followForm? levels id = some (t.form id) ∧
    t.followText? levels id = some (t.render id) ∧ t.followJson? levels id = some (t.toJson id)
  /-- The runs of the lists follow each other and cover the child table. -/
  runs : Run.Consecutive 0 t.arena.runs t.arena.children.size
  table : (List.range t.arena.size).flatMap t.items = t.arena.children.toList

/-- A node is the same in two trees: it has the same form and items, and shows the same. -/
structure Tree.Agree (t u : Tree) (id : NodeId) : Prop where
  form : u.form id = t.form id
  items : u.items id = t.items id
  alike : Tree.Alike t u id id

namespace Builder

variable {b : Builder} {cs : List Addition}

theorem Holds.records (h : b.Holds cs) (source : String) (root : NodeId) :
    (b.finish source root).Records cs where
  size := h.size
  leaf := by
    intro id node plain hid
    exact h.isAt id _ hid
  list := by
    intro id items hid
    obtain ⟨⟨r, hr⟩, hitems⟩ := h.isAt id _ hid
    have hnode : (b.finish source root).node? id = some (.list r) := hr
    refine ⟨?_, hitems⟩
    rw [Tree.isList, hnode]
  below := h.ordered.below
  found := by
    intro id hid levels hlevels
    have hordered : (b.finish source root).arena.Ordered := h.ordered
    exact ⟨Tree.followForm?_eq hordered hid hlevels, Tree.followText?_eq hordered hid hlevels,
      Tree.followJson?_eq hordered hid hlevels⟩
  runs := h.ordered.runs
  table := h.ordered.table

/-- A node is the same in two trees over one source if one of them has the nodes of the other and some
more, whichever their roots are. -/
theorem agree_of_grows {b' : Builder} {id : NodeId} (hb : b.arena.Sound)
    (hgrows : b.arena.Grows b'.arena) (hid : id < b.arena.size) (source : String)
    (root root' : NodeId) : Tree.Agree (b.finish source root) (b'.finish source root') id := by
  have hform := hgrows.form_eq hb hid
  have hnode : b'.arena.nodes[id]? = b.arena.nodes[id]?.map (Node.moved 0) := by
    rw [hgrows.node_eq hid]
    cases b.arena.nodes[id]? with
    | none => rfl
    | some node => cases node <;> rfl
  exact ⟨hform, hgrows.items_eq hb hid, Tree.alike_of_moved rfl hform hnode⟩

theorem after_append (b : Builder) (cs more : List Addition) :
    b.after (cs ++ more) = (b.after cs).after more := List.foldl_append

/-- Additions to an empty arena hand out the positions from zero on, and a tree finished behind them
shows all of them, whichever node is its root. Further additions only extend the tables, and the nodes
that were there are the same in every tree that is finished behind them, with any root. -/
theorem additions_are_kept {cs : List Addition} (h : AllowsAll {} cs) (source : String) :
    (after {} cs).handed = List.range cs.length ∧
      (∀ stream, cs.mapM Addition.rule ⟨stream, {}⟩ =
        .ok (List.range cs.length) ⟨stream, (after {} cs).arena⟩) ∧
      (∀ root, ((after {} cs).finish source root).Records cs) ∧
      ∀ more, (after {} cs).arena.Grows (after {} (cs ++ more)).arena ∧
        ∀ id < cs.length, ∀ root root', Tree.Agree ((after {} cs).finish source root)
          ((after {} (cs ++ more)).finish source root') id := by
  have hholds := holds_after h
  refine ⟨hholds.handed, fun stream => ?_, hholds.records source, fun more => ?_⟩
  · rw [List.range_eq_range']
    exact rules_run {} cs stream
  · have hgrows : (after {} cs).arena.Grows (after {} (cs ++ more)).arena := by
      rw [after_append]
      exact grows_after _ more
    refine ⟨hgrows, fun id hid root root' => ?_⟩
    exact agree_of_grows hholds.ordered.sound hgrows (hholds.size ▸ hid) source root root'

/-- A list that has another one as an item twice, and an empty list between. -/
theorem additions_are_kept_shared :
    ∃ (cs : List Addition) (t : Tree),
      cs = [.name ⟨0, 1⟩, .tag .select, .list [0, 0], .list [], .list [1, 2, 3, 2]] ∧
      t = (after {} cs).finish "ab" 4 ∧ AllowsAll {} cs ∧
      (after {} cs).handed = [0, 1, 2, 3, 4] ∧ t.Records cs ∧
      t.followText? 5 4 = some "(:Select (a a) () (a a))" ∧
      Tree.Agree t ((after {} (cs ++ [.list [4, 4]])).finish "ab" 5) 4 := by
  have hallowed : AllowsAll {}
      [.name ⟨0, 1⟩, .tag .select, .list [0, 0], .list [], .list [1, 2, 3, 2]] := by decide
  obtain ⟨hhanded, _, hrecords, hkept⟩ := additions_are_kept hallowed "ab"
  obtain ⟨_, hagree⟩ := hkept [.list [4, 4]]
  exact ⟨_, _, rfl, rfl, hallowed, hhanded, hrecords 4, by decide +kernel,
    hagree 4 (by decide) 4 5⟩

end Builder

end TaggedSql
