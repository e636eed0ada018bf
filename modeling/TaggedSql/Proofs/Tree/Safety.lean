import TaggedSql.Proofs.Text.Lines
import TaggedSql.Proofs.Tree.Ownership

/-!
# Questions that stay inside a tree

A node can be asked for its children, its text and its value at any time, also if it is not below the
root of its tree. No question leads outside the tables of the tree or outside its source as long as the
runs of the lists lie inside the table of children, children stand before their lists, and spans lie
inside the source with both ends between characters. Adding nodes preserves this.

* `Span.Covers`: the text that a span covers;
* `Arena.Safe`: an arena whose tables and spans are in order;
* `Safe.push`, `Safe.pushList`: adding nodes preserves this;
* `Tree.Displays`: the text of a node, put together from nothing but what is there;
* `Tree.Safe`, `safe_of_arena`: what can be asked of a tree with such an arena.
-/

namespace TaggedSql

open Text

/-! ### Spans inside a source -/

/-- The span covers the text: the source is cut before the text and behind it. -/
def Span.Covers (source : String) (s : Span) (text : String) : Prop :=
  ∃ before behind, source.toList = before ++ (text.toList ++ behind) ∧ s.start = width before ∧
    s.stop = width before + width text.toList

theorem Span.Covers.slice?_eq {source text : String} {s : Span} (h : s.Covers source text) :
    s.slice? source = some text := by
  obtain ⟨before, behind, hsource, hstart, hstop⟩ := h
  rw [Span.slice?, hsource, hstart, hstop, slice?_append, Option.map_some, String.ofList_toList]

/-- A span inside a source covers a text. -/
theorem Span.Within.exists_covers {source : String} {s : Span} (h : s.Within source.toList) :
    ∃ text, s.Covers source text := by
  obtain ⟨before, behind, hstart, hbefore⟩ := h.start
  obtain ⟨front, rest, hstop, hfront⟩ := h.stop
  obtain ⟨text, rfl⟩ := isPrefix_of_width_le ⟨behind, hstart.symm⟩ ⟨rest, hstop.symm⟩
    (hbefore ▸ hfront ▸ h.ordered)
  refine ⟨String.ofList text, before, rest, ?_, hbefore, ?_⟩
  · rw [String.toList_ofList, hstop, List.append_assoc]
  · rw [String.toList_ofList, hfront, width_append]

/-! ### Arenas in order -/

/-- The span of the node, if it has one, lies inside the source, and a name has characters. -/
structure Node.Readable (source : String) (node : Node) : Prop where
  within : ∀ s, node.span? = some s → s.Within source.toList
  named : ∀ s, node = .name s → s.start < s.stop

theorem Node.readable_of_span? {source : String} {node : Node} (h : node.span? = none) :
    node.Readable source := by
  constructor
  · intro s hs
    rw [h] at hs
    cases hs
  · rintro s rfl
    cases h

namespace Arena

/-- The runs of the lists lie inside the table of children, children stand before their lists, and all
spans can be read. -/
structure Safe (source : String) (a : Arena) : Prop where
  sound : a.Sound
  below : ∀ id, ∀ child ∈ a.items id, child < id
  readable : ∀ node ∈ a.nodes, node.Readable source

variable {source : String} {a : Arena} {items : List NodeId}

theorem safe_empty : Safe source {} where
  sound := sound_empty
  below := owned_empty.below
  readable := by
    intro node hnode
    simp at hnode

theorem Safe.push (h : a.Safe source) {node : Node} (hrun : node.run? = none)
    (hnode : node.Readable source) : (a.push node).Safe source := by
  have hgrows : a.Grows (a.push node) := grows_push_of_run? hrun
  refine ⟨hgrows.sound h.sound, below_of_grows h.sound h.below hgrows (size_push node) ?_, ?_⟩
  · rw [items_push hrun]
    exact List.forall_mem_nil _
  · intro other hother
    rcases Array.mem_push.1 hother with hold | rfl
    · exact h.readable other hold
    · exact hnode

theorem Safe.pushList (h : a.Safe source) (hitems : ∀ child ∈ items, child < a.size) :
    (a.pushList items).Safe source := by
  have hgrows : a.Grows (a.pushList items) := grows_pushList
  refine ⟨hgrows.sound h.sound, below_of_grows h.sound h.below hgrows size_pushList ?_, ?_⟩
  · rw [items_pushList]
    exact hitems
  · intro other hother
    rcases Array.mem_push.1 hother with hold | rfl
    · exact h.readable other hold
    · exact Node.readable_of_span? rfl

end Arena

/-! ### Questions about a tree -/

namespace Tree

/-- The text of a node, put together from nothing but what is there: nodes of the table of nodes, runs
inside the table of children, and texts that spans of the source cover. -/
inductive Displays (t : Tree) : NodeId → String → Prop where
  | list {id : NodeId} {r : Run} {texts : List String} (hnode : t.node? id = some (.list r))
      (hrun : r.start + r.length ≤ t.arena.children.size)
      (hitems : List.Forall₂ (Displays t) (t.items id) texts) :
      Displays t id ("(" ++ String.intercalate " " texts ++ ")")
  | tag {id : NodeId} {tag : Tag} (hnode : t.node? id = some (.tag tag)) :
      Displays t id (":" ++ tag.name)
  | integer {id : NodeId} {n : Int64} (hnode : t.node? id = some (.integer n)) :
      Displays t id (toString n.toInt)
  | float {id : NodeId} {x : Binary64} (hnode : t.node? id = some (.float x)) :
      Displays t id (Binary64.Layout.form.write x)
  | name {id : NodeId} {s : Span} {text : String} (hnode : t.node? id = some (.name s))
      (hcovers : s.Covers t.source text) : Displays t id text
  | string {id : NodeId} {s : Span} {text : String} (hnode : t.node? id = some (.string s))
      (hcovers : s.Covers t.source text) : Displays t id ("'" ++ text ++ "'")
  | blob {id : NodeId} {s : Span} {text : String} (hnode : t.node? id = some (.blob s))
      (hcovers : s.Covers t.source text) : Displays t id ("X'" ++ text ++ "'")

/-- Whatever is asked of a node of the tree, below its root or not, is answered from its tables and its
source, and nothing stands in for an answer. -/
structure Safe (t : Tree) : Prop where
  root : t.root < t.arena.size
  node : ∀ id < t.arena.size, ∃ node, t.node? id = some node
  /-- The children of a list are those in its run, which lies inside the table of children. -/
  children : ∀ id r, t.node? id = some (.list r) →
    r.start + r.length ≤ t.arena.children.size ∧ (t.items id).length = r.length
  child : ∀ id index child, t.child? id index = some child → child < id ∧ id < t.arena.size
  descend : ∀ id < t.arena.size, ∀ path other, t.descend? id path = some other →
    other < t.arena.size
  rendering : ∀ id < t.arena.size, t.Displays id (t.render id)
  /-- A span lies inside the source with both ends between characters, and the text is what it covers. -/
  text : ∀ id s, t.span? id = some s → s.Within t.source.toList ∧
    ∃ text, s.Covers t.source text ∧ s.slice? t.source = some text ∧ t.text? id = some text
  name : ∀ id s, t.node? id = some (.name s) → t.text? id ≠ some ""
  /-- The text before a name can always be formed. -/
  unescaped : ∀ id, ∃ text, t.unescaped id = .ok text

variable {t : Tree} {id : NodeId}

theorem readable_of_node? (h : t.arena.Safe t.source) {node : Node} (hnode : t.node? id = some node) :
    node.Readable t.source := h.readable node (Array.mem_of_getElem? hnode)

theorem exists_node (hid : id < t.arena.size) : ∃ node, t.node? id = some node :=
  ⟨_, Array.getElem?_eq_getElem hid⟩

theorem items_of_node? {r : Run} (hnode : t.node? id = some (.list r)) :
    t.items id = t.arena.run r := by
  rw [items, Arena.items, show t.arena.nodes[id]? = some (.list r) from hnode]

/-- Only what is there has children, and they stand before it. -/
theorem child_lt (h : t.arena.Safe t.source) {index child : Nat}
    (hchild : t.child? id index = some child) : child < id ∧ id < t.arena.size := by
  have hmem : child ∈ t.arena.items id := List.mem_of_getElem? hchild
  refine ⟨h.below id child hmem, ?_⟩
  by_contra hid
  rw [Arena.items_of_le (Nat.le_of_not_lt hid)] at hmem
  cases hmem

theorem descend_lt (h : t.arena.Safe t.source) {path : List Nat} {other : NodeId}
    (hid : id < t.arena.size) (hpath : t.descend? id path = some other) : other < t.arena.size := by
  induction path generalizing id with
  | nil =>
    cases hpath
    exact hid
  | cons index path ih =>
    obtain ⟨child, hchild, hpath⟩ := Option.bind_eq_some_iff.1 hpath
    obtain ⟨hlt, _⟩ := child_lt h hchild
    exact ih (Nat.lt_trans hlt hid) hpath

theorem length_items (h : t.arena.Safe t.source) {r : Run} (hnode : t.node? id = some (.list r)) :
    r.start + r.length ≤ t.arena.children.size ∧ (t.items id).length = r.length := by
  have hrun := h.sound id r hnode
  refine ⟨hrun, ?_⟩
  rw [items_of_node? hnode, Arena.run, Array.length_toList, Array.size_extract]
  omega

/-! ### Rendering -/

/-- A list is rendered from its items. -/
theorem render_of_list (h : t.arena.Safe t.source) {r : Run} (hnode : t.node? id = some (.list r)) :
    t.render id = "(" ++ String.intercalate " " ((t.items id).map t.render) ++ ")" := by
  have hform : t.form id = .list ((t.items id).map t.form) :=
    Arena.form_of_list_of_below h.below hnode
  rw [render, hform, Form.render, Form.renderItems_eq_map, List.map_map]
  rfl

theorem sliceOf_eq {source text : String} {s : Span} (h : s.Covers source text) :
    Form.sliceOf source.toList s = text := by
  obtain ⟨before, behind, hsource, hstart, hstop⟩ := h
  rw [Form.sliceOf, hsource, hstart, hstop, slice?_append, Option.getD_some, String.ofList_toList]

theorem displays_render (h : t.arena.Safe t.source) (hid : id < t.arena.size) :
    t.Displays id (t.render id) := by
  -- Children stand before their list, so the induction is on the position.
  induction id using Nat.strongRecOn with
  | ind id ih =>
    obtain ⟨node, hnode⟩ := exists_node hid
    have hreadable := readable_of_node? h hnode
    have hshown : ∀ s, node.span? = some s →
        ∃ text, s.Covers t.source text ∧ Form.sliceOf t.source.toList s = text := by
      intro s hs
      obtain ⟨text, hcovers⟩ := (hreadable.within s hs).exists_covers
      exact ⟨text, hcovers, sliceOf_eq hcovers⟩
    have hleaf : ∀ f, node.leaf? = some f → t.render id = f.render t.source.toList := by
      intro f hf
      rw [render, form, Arena.form_of_leaf hnode hf]
    cases node with
    | list r =>
      rw [render_of_list h hnode]
      refine .list hnode (length_items h hnode).1 ?_
      rw [List.forall₂_map_right_iff, List.forall₂_same]
      intro child hchild
      have hlt := h.below id child hchild
      exact ih child hlt (Nat.lt_trans hlt hid)
    | tag tag =>
      rw [hleaf _ rfl]
      exact .tag hnode
    | integer n =>
      rw [hleaf _ rfl]
      exact .integer hnode
    | float x =>
      rw [hleaf _ rfl]
      exact .float hnode
    | name s =>
      obtain ⟨text, hcovers, hslice⟩ := hshown s rfl
      rw [hleaf _ rfl, Form.render, hslice]
      exact .name hnode hcovers
    | string s =>
      obtain ⟨text, hcovers, hslice⟩ := hshown s rfl
      rw [hleaf _ rfl, Form.render, hslice]
      exact .string hnode hcovers
    | blob s =>
      obtain ⟨text, hcovers, hslice⟩ := hshown s rfl
      rw [hleaf _ rfl, Form.render, hslice]
      exact .blob hnode hcovers

/-! ### Texts -/

theorem text?_of_span? (h : t.arena.Safe t.source) {s : Span} (hs : t.span? id = some s) :
    s.Within t.source.toList ∧
      ∃ text, s.Covers t.source text ∧ s.slice? t.source = some text ∧ t.text? id = some text := by
  obtain ⟨node, hnode, hspan⟩ := Option.bind_eq_some_iff.1 hs
  have hwithin := (readable_of_node? h hnode).within s hspan
  obtain ⟨text, hcovers⟩ := hwithin.exists_covers
  refine ⟨hwithin, text, hcovers, hcovers.slice?_eq, ?_⟩
  rw [text?, hs, Option.map_some, Span.slice, hcovers.slice?_eq, Option.getD_some]

theorem text?_ne_empty (h : t.arena.Safe t.source) {s : Span} (hnode : t.node? id = some (.name s)) :
    t.text? id ≠ some "" := by
  have hspan : t.span? id = some s := by
    rw [span?, hnode]
    rfl
  obtain ⟨_, text, ⟨before, behind, _, hstart, hstop⟩, _, htext⟩ := text?_of_span? h hspan
  have hlt := (readable_of_node? h hnode).named s rfl
  rw [htext]
  rintro hempty
  cases hempty
  rw [hstart, hstop] at hlt
  exact Nat.lt_irrefl _ hlt

theorem unescaped_eq_ok (h : t.arena.Safe t.source) (id : NodeId) :
    ∃ text, t.unescaped id = .ok text := by
  rw [unescaped]
  split
  next => exact ⟨_, rfl⟩
  next s hnode =>
    obtain ⟨before, behind, hsource, hstart⟩ := ((readable_of_node? h hnode).within s rfl).start
    have hquote : quoteBefore? t.source.toList s =
        .ok (before.getLast?.filter fun c => c == '\x22' || c == '\x60') := by
      rw [quoteBefore?, hsource, hstart, takeBytes?_append]
    rw [hquote]
    cases before.getLast?.filter fun c => c == '\x22' || c == '\x60' with
    | none => exact ⟨_, rfl⟩
    | some quote => exact ⟨_, rfl⟩
  next => exact ⟨_, rfl⟩

/-- A tree can be asked anything if its arena is in order and holds its root. -/
theorem safe_of_arena (h : t.arena.Safe t.source) (hroot : t.root < t.arena.size) : t.Safe where
  root := hroot
  node _ := exists_node
  children _ _ := length_items h
  child _ _ _ := child_lt h
  descend _ hid _ _ := descend_lt h hid
  rendering _ := displays_render h
  text _ _ := text?_of_span? h
  name _ _ := text?_ne_empty h
  unescaped := unescaped_eq_ok h

end Tree

end TaggedSql
