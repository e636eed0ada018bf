import TaggedSql.Proofs.Ledger.Whole
import TaggedSql.Proofs.Session.Encoding

/-!
# Where nodes come from

Every name, string and blob of a tree is drawn from the tokens of its source. What a tree says of its
text is therefore said by the lexer: it is enough to know how a token of each kind is read.

* `Arena.DrawnFrom`: all nodes of an arena are drawn from some tokens;
* `Ledger.ofOrigins`: the account of the tokens that nodes are drawn from;
* `draws_tree`, `drawn_of_parse`, `drawn_of_parseScript`: the nodes of a tree.
-/

namespace TaggedSql

open Statement

/-- All nodes of the arena are drawn from the tokens. Lists have no token, and the numbers of double
precision have no span. -/
def Arena.DrawnFrom (a : Arena) (ts : List Token) : Prop :=
  ∀ node ∈ a.nodes, node.isPlain = true → node.DrawnFrom ts

namespace Arena

variable {a : Arena} {ts : List Token}

theorem drawnFrom_empty : ({} : Arena).DrawnFrom ts := by
  intro node hnode
  simp at hnode

theorem DrawnFrom.push (h : a.DrawnFrom ts) {node : Node}
    (hnode : node.isPlain = true → node.DrawnFrom ts) : (a.push node).DrawnFrom ts := by
  intro other hother
  rcases Array.mem_push.1 hother with hold | rfl
  · exact h other hold
  · exact hnode

theorem DrawnFrom.pushList (h : a.DrawnFrom ts) (items : List NodeId) :
    (a.pushList items).DrawnFrom ts := by
  intro other hother
  rcases Array.mem_push.1 hother with hold | rfl
  · exact h other hold
  · intro hplain
    cases hplain

end Arena

/-- The tokens ahead are some of those given, and all nodes so far are drawn from these. -/
structure ParseState.DrawnFrom (s : ParseState) (ts : List Token) : Prop where
  ahead : s.stream.rest <:+ ts
  nodes : s.arena.DrawnFrom ts

/-- The account of the tokens that nodes are drawn from. -/
def Ledger.ofOrigins (policy : OverflowPolicy) (ts : List Token) : Ledger where
  policy
  holds s _ := s.DrawnFrom ts
  failed s := s.DrawnFrom ts
  fail h := h
  perm _ h := h
  advance h := ⟨(Stream.rest_advance_suffix _).trans h.ahead, h.nodes⟩
  drawn node := node.DrawnFrom ts
  draw hnode h := hnode.mono h.ahead
  push hnode h := ⟨h.ahead, h.nodes.push fun _ => hnode⟩
  float _ h := ⟨(Stream.rest_advance_suffix _).trans h.ahead, h.nodes.push fun h => nomatch h⟩
  pushList h := ⟨h.ahead, h.nodes.pushList _⟩

/-! ### Trees -/

/-- A tree of the source whose nodes are drawn from the tokens. -/
structure Tree.DrawnFrom (t : Tree) (source : String) (ts : List Token) : Prop where
  source : t.source = source
  nodes : t.arena.DrawnFrom ts

/-- A node of a tree, as far as it is drawn from tokens. -/
theorem Tree.DrawnFrom.node {t : Tree} {source : String} {ts : List Token} (h : t.DrawnFrom source ts)
    {id : NodeId} {node : Node} (hnode : t.node? id = some node) (hplain : node.isPlain = true) :
    node.DrawnFrom ts :=
  h.nodes node (Array.mem_of_getElem? hnode) hplain

/-- The text of a node is what its span covers. -/
theorem Tree.DrawnFrom.text?_eq {t : Tree} {source : String} {ts : List Token}
    (h : t.DrawnFrom source ts) {id : NodeId} {node : Node} (hnode : t.node? id = some node)
    {span : Span} (hspan : node.span? = some span) : t.text? id = some (span.slice source) := by
  rw [text?, span?, hnode, Option.bind_some, hspan, Option.map_some, h.source]

variable {settings : Settings} {source : String}

/-- A statement draws the nodes of its tree from the tokens. -/
theorem draws_tree (settings : Settings) (source : String) (ts : List Token) :
    (Ledger.ofOrigins settings.overflow ts).Gives (tree settings source)
      fun t => t.DrawnFrom source ts :=
  Ledger.gives_tree rfl fun _ _ hs => ⟨⟨rfl, hs.nodes⟩, hs.ahead, Arena.drawnFrom_empty⟩

/-! ### Sessions -/

theorem drawnFrom_start (settings : Settings) (source : String) :
    (Session.start settings source).state.DrawnFrom (tokenize settings.overflow source) := by
  refine ⟨?_, Arena.drawnFrom_empty⟩
  rw [tokenize_eq]
  exact List.suffix_rfl

/-- The nodes of a tree are drawn from the tokens of its source. -/
theorem drawn_of_parse {t : Tree} (h : parse settings source = .ok t) :
    t.DrawnFrom source (tokenize settings.overflow source) := by
  have hgives := Ledger.gives_single (draws_tree settings source (tokenize settings.overflow source))
  exact hgives.of_run (drawnFrom_start settings source) h

theorem drawn_of_parseScript {trees : List Tree} (h : parseScript settings source = .ok trees)
    {t : Tree} (ht : t ∈ trees) : t.DrawnFrom source (tokenize settings.overflow source) := by
  have hgives := Ledger.gives_script (draws_tree settings source (tokenize settings.overflow source))
  exact hgives.of_run (drawnFrom_start settings source) h t ht

end TaggedSql
