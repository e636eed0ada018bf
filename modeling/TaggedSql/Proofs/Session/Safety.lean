import TaggedSql.Proofs.Session.History
import TaggedSql.Proofs.Session.Quoting
import TaggedSql.Proofs.Token.Order
import TaggedSql.Proofs.Tree.Safety

/-!
# Safe trees

Spans come from the lexer and are put into nodes by rules that may yet fail, and what a failed call has
added stays in the arena of the next tree. Still every node of every tree can be asked anything: the
account of a run says that its arena is in order, whether the run fails or not, so the account passes
from call to call.

* `Node.DrawnFrom.readable`: what is drawn from the tokens of a source can be read from it;
* `Ledger.ofSafety`: the account of tables and spans that are in order;
* `Session.Safe`: a session whose arena is in order, kept by one call and by any calls;
* `safe_after_calls`: the trees of a session are safe, whatever has been called before.
-/

namespace TaggedSql

open Text

variable {policy : OverflowPolicy} {source : String} {t : Token}

/-! ### Spans of tokens -/

theorem within_of_mem_tokenize (ht : t ∈ tokenize policy source) : t.span.Within source.toList :=
  (Lexer.start policy source).tiled_tokens.within (List.nil_append _).symm rfl ht

/-- A token with a name has characters. -/
theorem start_lt_stop_of_mem_tokenize (ht : t ∈ tokenize policy source)
    (hkind : t.kind.isIdentifier = true ∨ t.kind = .parameter true) : t.span.start < t.span.stop := by
  obtain ⟨before, x, hread, hfull⟩ : ∃ before x, t.ReadAs source before x ∧ x.body ≠ [] := by
    rcases hkind with hkind | hkind
    · obtain ⟨quoted, hkind⟩ := Kind.exists_of_isIdentifier hkind
      obtain ⟨before, x, hread, hwritten⟩ :=
        exists_lexeme_of_mem_tokenize ht hkind rfl Kind.noConfusion
      cases quoted with
      | true => exact ⟨before, x, hread, hwritten.1⟩
      | false => exact ⟨before, x, hread, hwritten.full⟩
    · obtain ⟨before, x, hread, hwritten⟩ :=
        exists_lexeme_of_mem_tokenize ht hkind rfl Kind.noConfusion
      exact ⟨before, x, hread, hwritten.full⟩
  rw [hread.span]
  exact Nat.lt_add_of_pos_right (Lexer.width_pos hfull)

/-- Words that follow each other have a span from the first to the last. -/
theorem within_of_words {words : List Token} (hwords : t :: words <:+: tokenize policy source)
    (hplain : ∀ w ∈ t :: words, w.kind = .identifier false) :
    (Span.mk t.span.start (Token.lastStop t.span.stop words)).Within source.toList ∧
      t.span.start < Token.lastStop t.span.stop words := by
  have ht := hwords.subset List.mem_cons_self
  have hfirst := within_of_mem_tokenize ht
  cases words using List.reverseRecOn with
  | nil =>
    have hlt := start_lt_stop_of_mem_tokenize ht (.inl (by rw [hplain t List.mem_cons_self]; rfl))
    exact ⟨hfirst, hlt⟩
  | append_singleton front last =>
    have hmem : last ∈ t :: (front ++ [last]) := by simp
    have hlast := within_of_mem_tokenize (hwords.subset hmem)
    have hpairwise := (Lexer.start policy source).pairwise_start.sublist hwords.sublist
    have hlt : t.span.start < last.span.stop :=
      Nat.lt_of_lt_of_le (List.rel_of_pairwise_cons hpairwise (by simp)) hlast.ordered
    rw [Token.lastStop_concat]
    exact ⟨⟨Nat.le_of_lt hlt, hlast.bounded, hfirst.start, hlast.stop⟩, hlt⟩

/-- What is drawn from the tokens of a source can be read from the source. -/
theorem Node.DrawnFrom.readable {node : Node} (h : node.DrawnFrom (tokenize policy source)) :
    node.Readable source := by
  have hspan : ∀ {s : Span}, s.Within source.toList → s.start < s.stop → (Node.name s).Readable source := by
    intro s hwithin hlt
    constructor
    · rintro _ ⟨⟩
      exact hwithin
    · rintro _ ⟨⟩
      exact hlt
  cases h with
  | tag t => exact readable_of_span? rfl
  | integer n => exact readable_of_span? rfl
  | name ht hkind =>
    exact hspan (within_of_mem_tokenize ht) (start_lt_stop_of_mem_tokenize ht (.inl hkind))
  | parameter ht hkind =>
    exact hspan (within_of_mem_tokenize ht) (start_lt_stop_of_mem_tokenize ht (.inr hkind))
  | type hwords hplain =>
    obtain ⟨hwithin, hlt⟩ := within_of_words hwords hplain
    exact hspan hwithin hlt
  | string ht hkind =>
    constructor
    · rintro _ ⟨⟩
      exact within_of_mem_tokenize ht
    · rintro _ ⟨⟩
  | blob ht hkind =>
    constructor
    · rintro _ ⟨⟩
      exact within_of_mem_tokenize ht
    · rintro _ ⟨⟩

/-! ### The account -/

/-- The tokens ahead are some of those of the source, and the arena is in order. -/
structure ParseState.Safe (policy : OverflowPolicy) (source : String) (s : ParseState) : Prop where
  ahead : s.stream.rest <:+ tokenize policy source
  arena : s.arena.Safe source

theorem Node.run?_of_isPlain {node : Node} (h : node.isPlain = true) : node.run? = none := by
  cases node with
  | list r => cases h
  | _ => rfl

/-- The account of tables and spans that are in order; the nodes at hand are in the arena. -/
def Ledger.ofSafety (policy : OverflowPolicy) (source : String) : Ledger where
  policy
  holds s ids := s.Safe policy source ∧ ∀ id ∈ ids, id < s.arena.size
  failed s := s.Safe policy source
  fail h := h.1
  perm hperm h := ⟨h.1, fun id hid => h.2 id (hperm.mem_iff.2 hid)⟩
  advance h := ⟨⟨(Stream.rest_advance_suffix _).trans h.1.ahead, h.1.arena⟩, h.2⟩
  drawn node := node.run? = none ∧ node.Readable source
  draw hnode h := ⟨Node.run?_of_isPlain hnode.isPlain, (hnode.mono h.1.ahead).readable⟩
  push := by
    rintro s ids node ⟨hrun, hnode⟩ ⟨hs, hids⟩
    exact ⟨⟨hs.ahead, hs.arena.push hrun hnode⟩, Arena.lt_concat hids (Arena.size_push node)⟩
  float := by
    rintro s ids x hx ⟨hs, hids⟩
    exact ⟨⟨(Stream.rest_advance_suffix _).trans hs.ahead,
      hs.arena.push rfl (Node.readable_of_span? rfl)⟩, Arena.lt_concat hids (Arena.size_push _)⟩
  pushList := by
    rintro s ids items ⟨hs, hids⟩
    obtain ⟨hothers, hitems⟩ := List.forall_mem_append.1 hids
    exact ⟨⟨hs.ahead, hs.arena.pushList hitems⟩, Arena.lt_concat hothers Arena.size_pushList⟩

/-- A tree has its nodes from an arena in order. -/
theorem safe_tree (settings : Settings) (source : String) :
    (Ledger.ofSafety settings.overflow source).Gives (Statement.tree settings source)
      fun t => t.source = source ∧ t.Safe := by
  refine Ledger.gives_tree rfl fun s root hs => ?_
  obtain ⟨hsafe, hroot⟩ := hs
  refine ⟨⟨rfl, Tree.safe_of_arena hsafe.arena (hroot root List.mem_cons_self)⟩, ?_⟩
  exact ⟨⟨hsafe.ahead, Arena.safe_empty⟩, List.forall_mem_nil _⟩

/-! ### Sessions -/

/-- A session reads its source, and its arena is in order. -/
structure Session.Safe (source : String) (s : Session) : Prop where
  kept : s.source = source
  state : s.state.Safe s.settings.overflow source

namespace Session.Safe

variable {s : Session}

theorem start (settings : Settings) (source : String) : (Session.start settings source).Safe source :=
  ⟨rfl, (drawnFrom_start settings source).ahead, Arena.safe_empty⟩

/-- New settings lead back to the beginning of the source, with the arena that is there. -/
theorem configure (h : s.Safe source) (settings : Settings) : (s.configure settings).Safe source := by
  refine ⟨h.kept, ?_, h.state.arena⟩
  show (Stream.ofSource settings.overflow s.source).rest <:+ _
  rw [h.kept]
  exact (drawnFrom_start settings source).ahead

theorem run {α : Type} {x : Rule α} {V : α → Prop} (h : s.Safe source)
    (hx : (Ledger.ofSafety s.settings.overflow source).Gives x V) : (s.run x).2.Safe source := by
  refine ⟨(s.source_run x).trans h.kept, ?_⟩
  rw [s.settings_run x]
  exact hx.failed_run ⟨h.state, List.forall_mem_nil _⟩

theorem gives_tree (h : s.Safe source) :
    (Ledger.ofSafety s.settings.overflow source).Gives (Statement.tree s.settings s.source)
      fun t => t.source = source ∧ t.Safe := by
  rw [h.kept]
  exact safe_tree s.settings source

/-- A call keeps the arena in order, whatever its outcome is. -/
theorem call (h : s.Safe source) (c : Call) : (s.call c).Safe source := by
  cases c with
  | statement => exact h.run (Ledger.gives_single h.gives_tree)
  | statements => exact h.run (Ledger.gives_script h.gives_tree)
  | configure settings => exact h.configure settings

theorem after (h : s.Safe source) (calls : List Call) : (s.after calls).Safe source :=
  Session.after_induction (fun _ c hs => hs.call c) h calls

theorem statement (h : s.Safe source) {t : Tree} (ht : s.statement.1 = .ok t) :
    t.source = source ∧ t.Safe :=
  (Ledger.gives_single h.gives_tree).of_run ⟨h.state, List.forall_mem_nil _⟩ ht

theorem statements (h : s.Safe source) {trees : List Tree} (htrees : s.statements.1 = .ok trees) :
    ∀ t ∈ trees, t.source = source ∧ t.Safe :=
  (Ledger.gives_script h.gives_tree).of_run ⟨h.state, List.forall_mem_nil _⟩ htrees

end Session.Safe

/-- Every node of every tree can be asked anything, in a tree of a source as in one of a session on
which calls have failed before. -/
theorem safe_after_calls (settings : Settings) (source : String) :
    (∀ t, parse settings source = .ok t → t.source = source ∧ t.Safe) ∧
    (∀ trees, parseScript settings source = .ok trees → ∀ t ∈ trees, t.source = source ∧ t.Safe) ∧
    ∀ calls : List Call,
      (∀ t, ((Session.start settings source).after calls).statement.1 = .ok t →
        t.source = source ∧ t.Safe) ∧
      ∀ trees, ((Session.start settings source).after calls).statements.1 = .ok trees →
        ∀ t ∈ trees, t.source = source ∧ t.Safe := by
  have hstart := Session.Safe.start settings source
  refine ⟨fun t => hstart.statement, fun trees => hstart.statements, fun calls => ?_⟩
  have hsafe := hstart.after calls
  exact ⟨fun t => hsafe.statement, fun trees => hsafe.statements⟩

/-- A name that a failed statement has left over stands in the next tree, but not below its root. -/
theorem safe_after_calls_left :
    ∃ t, ((Session.start {} "SELECT a +; SELECT 'é'").after [.statement]).statements.1 = .ok [t] ∧
      t.node? 1 = some (.name ⟨7, 8⟩) ∧ t.root = 5 ∧ t.Safe := by
  let s := (Session.start {} "SELECT a +; SELECT 'é'").after [.statement]
  have hread : (s.statements.1.toOption.map fun trees => trees.map fun t => (t.node? 1, t.root)) =
      some [(some (.name ⟨7, 8⟩), 5)] := by decide +kernel
  obtain ⟨trees, htrees, hvalues⟩ := Option.map_eq_some_iff.1 hread
  obtain ⟨t, rfl, ht⟩ := List.map_eq_singleton_iff.1 hvalues
  obtain ⟨hnode, hroot⟩ := Prod.mk.inj ht
  have hstatements := eq_ok_of_toOption htrees
  obtain ⟨_, hsafe⟩ := ((safe_after_calls {} "SELECT a +; SELECT 'é'").2.2 [.statement]).2 _
    hstatements t List.mem_cons_self
  exact ⟨t, hstatements, hnode, hroot, hsafe⟩

end TaggedSql
