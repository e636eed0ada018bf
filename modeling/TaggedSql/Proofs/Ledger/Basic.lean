import TaggedSql.Proofs.Grammar.Parts
import TaggedSql.Proofs.Grammar.Running

/-!
# Keeping account of nodes

Between two steps of a rule some nodes are at hand: they have been added, and the rule has yet to put
them into a list. A ledger is anything that is known of a state together with its nodes at hand, and
that taking a token and adding a node keep. What a ledger says then holds behind every rule, and it
says something about the states in which rules fail.

* `Node.DrawnFrom`: the tokens that a node with a span is read from;
* `Ledger`: what is known of a state and the nodes at hand, and the laws that the grammar relies on;
* `Ledger.Keeps`: a rule uses some nodes at hand up and hands others over, whatever else is at hand;
* `Keeps.bind`, `Keeps.on`: one rule after another;
* `Keeps.iterate`: one step after another;
* one statement for each way of looking at tokens, taking them and adding nodes.
-/

namespace TaggedSql

/-- Whether a node is neither a list nor a double-precision number. -/
def Node.isPlain : Node → Bool
  | .list _ | .float _ => false
  | _ => true

/-- A node with a span is drawn from tokens: the span is that of a token of its kind, or runs over all
words of a type. Tags and integers are drawn from any tokens. -/
inductive Node.DrawnFrom (ts : List Token) : Node → Prop where
  | tag (t : Tag) : DrawnFrom ts (.tag t)
  | integer (n : Int64) : DrawnFrom ts (.integer n)
  | name {t : Token} (h : t ∈ ts) (ht : t.kind.isIdentifier = true) : DrawnFrom ts (.name t.span)
  | parameter {t : Token} (h : t ∈ ts) (ht : t.kind = .parameter true) : DrawnFrom ts (.name t.span)
  | type {t : Token} {words : List Token} (h : t :: words <:+: ts)
      (hplain : ∀ w ∈ t :: words, w.kind = .identifier false) :
      DrawnFrom ts (.name ⟨t.span.start, Token.lastStop t.span.stop words⟩)
  | string {t : Token} (h : t ∈ ts) (ht : t.kind = .string) : DrawnFrom ts (.string t.span)
  | blob {t : Token} (h : t ∈ ts) (ht : t.kind = .blob) : DrawnFrom ts (.blob t.span)

namespace Node.DrawnFrom

variable {ts us : List Token} {node : Node}

theorem isPlain (h : node.DrawnFrom ts) : node.isPlain = true := by
  cases h <;> rfl

/-- More tokens before them make no difference. -/
theorem mono (h : node.DrawnFrom ts) (hts : ts <:+ us) : node.DrawnFrom us := by
  cases h with
  | tag t => exact .tag t
  | integer n => exact .integer n
  | name h ht => exact .name (hts.subset h) ht
  | parameter h ht => exact .parameter (hts.subset h) ht
  | type h hplain => exact .type (h.trans hts.isInfix) hplain
  | string h ht => exact .string (hts.subset h) ht
  | blob h ht => exact .blob (hts.subset h) ht

end Node.DrawnFrom

/-- The double-precision number that a token is read as under a policy. -/
def Kind.float? (policy : OverflowPolicy) : Kind → Option Binary64
  | .float x => some x
  | .leastMagnitude =>
    match policy with
    | .promote => some Binary64.twoPow63
    | .reject => none
  | _ => none

/-- What is known of a state and the nodes at hand. -/
structure Ledger where
  policy : OverflowPolicy
  holds : ParseState → List NodeId → Prop
  /-- What is known of the states in which a rule fails. -/
  failed : ParseState → Prop
  fail : ∀ {s ids}, holds s ids → failed s
  /-- The nodes at hand have no order. -/
  perm : ∀ {s ids ids'}, ids.Perm ids' → holds s ids → holds s ids'
  advance : ∀ {s : ParseState} {ids}, holds s ids → holds { s with stream := s.stream.advance } ids
  /-- What is known of a node from the tokens that it is drawn from, which may have been taken before
  the node is added. -/
  drawn : Node → Prop := fun node => node.isPlain = true
  draw : ∀ {s : ParseState} {ids} {node : Node}, node.DrawnFrom s.stream.rest → holds s ids →
    drawn node := by exact fun h _ => h.isPlain
  /-- A further node is at hand when it has been added. -/
  push : ∀ {s : ParseState} {ids} {node : Node}, drawn node → holds s ids →
    holds { s with arena := s.arena.push node } (ids ++ [s.arena.size])
  /-- A double-precision number is added together with taking its token. -/
  float : ∀ {s : ParseState} {ids x}, s.stream.current.kind.float? policy = some x → holds s ids →
    holds ⟨s.stream.advance, s.arena.push (.float x)⟩ (ids ++ [s.arena.size])
  /-- A list takes its items, and is at hand itself. -/
  pushList : ∀ {s : ParseState} {ids items}, holds s (ids ++ items) →
    holds { s with arena := s.arena.pushList items } (ids ++ [s.arena.size])

namespace Ledger

open Rule

variable {L : Ledger} {α β : Type} {given given' k used items : List NodeId} {x : Rule α}
  {f : α → Rule β} {g : α → List NodeId} {g' : β → List NodeId}

/-- What is known of a result: the nodes that a value hands over are at hand beside some others. -/
def Result (L : Ledger) (others : List NodeId) (g : α → List NodeId) :
    EStateM.Result Failure ParseState α → Prop
  | .ok a s => L.holds s (others ++ g a)
  | .error _ s => L.failed s

/-- The rule uses up the nodes that it is given, hands others over with its value, and leaves alone
whatever else is at hand. -/
def Keeps (L : Ledger) (given : List NodeId) (x : Rule α) (g : α → List NodeId) : Prop :=
  ∀ s others, L.holds s (others ++ given) → L.Result others g (x s)

/-! ### Sequences of rules -/

theorem Keeps.perm (h : L.Keeps given' x g) (hperm : given.Perm given') :
    L.Keeps given x g :=
  fun s others hs => h s others (L.perm (hperm.append_left others) hs)

theorem Keeps.done {a : α} (h : given.Perm (g a)) : L.Keeps given (pure a) g :=
  fun _ others hs => L.perm (h.append_left others) hs

/-- The second of two rules is given what the first one hands over, and what was kept from it. -/
theorem Keeps.on (h : L.Keeps used x g) (hf : ∀ a, L.Keeps (k ++ g a) (f a) g') :
    L.Keeps (k ++ used) (x >>= f) g' := by
  intro s others hs
  rw [← List.append_assoc] at hs
  have hx := h s (others ++ k) hs
  cases hrun : x s with
  | error e s' =>
    rw [hrun] at hx
    rw [bind_of_error hrun]
    exact hx
  | ok a s' =>
    rw [hrun] at hx
    rw [bind_of_ok hrun]
    refine hf a s' others ?_
    rw [← List.append_assoc]
    exact hx

/-- A rule that is given nothing leaves everything to the next one. -/
theorem Keeps.bind (h : L.Keeps [] x g) (hf : ∀ a, L.Keeps (given ++ g a) (f a) g') :
    L.Keeps given (x >>= f) g' := by
  have hon := h.on hf
  rwa [List.append_nil] at hon

/-- A rule that is given everything leaves to the next one what it hands over. -/
theorem Keeps.then (h : L.Keeps given x g) (hf : ∀ a, L.Keeps (g a) (f a) g') :
    L.Keeps given (x >>= f) g' := Keeps.on (k := []) h hf

/-- A rule that hands nothing over. -/
theorem Keeps.pass (h : L.Keeps [] x fun _ => []) (hf : ∀ a, L.Keeps given (f a) g') :
    L.Keeps given (x >>= f) g' := by
  refine h.bind fun a => ?_
  rw [List.append_nil]
  exact hf a

theorem Keeps.unexpected {e : Expectation} : L.Keeps given (Rule.unexpected e : Rule α) g :=
  fun _ _ hs => L.fail hs

theorem Keeps.throw {e : Failure} : L.Keeps given (throw e : Rule α) g :=
  fun _ _ hs => L.fail hs

/-! ### Looking at tokens -/

/-- A rule that only looks at the stream leaves everything as it is. -/
theorem Keeps.look (see : Stream → α) (hx : ∀ s : ParseState, x s = .ok (see s.stream) s) :
    L.Keeps [] x fun _ => [] := by
  intro s others hs
  rw [hx s]
  exact hs

theorem keeps_peek (n : Nat) : L.Keeps [] (peek n) fun _ => [] := .look (·.peek n) (peek_run n)

theorem keeps_current : L.Keeps [] current fun _ => [] := .look Stream.current current_run

theorem keeps_currentWord? : L.Keeps [] currentWord? fun _ => [] :=
  .look (·.current.kind.word?) currentWord?_run

theorem keeps_at? (t : Terminal) : L.Keeps [] (at? t) fun _ => [] :=
  .look (·.current.kind == t.kind) (at?_run t)

theorem keeps_atEnd : L.Keeps [] atEnd fun _ => [] := .look (·.current.isEnd) atEnd_run

theorem keeps_atPlainIdentifier : L.Keeps [] atPlainIdentifier fun _ => [] :=
  .look (·.current.kind == .identifier false) atPlainIdentifier_run

theorem keeps_atQuery : L.Keeps [] atQuery fun _ => [] :=
  .look (·.current.kind.startsQuery) atQuery_run

/-! ### Taking tokens -/

theorem keeps_checkSpelling : L.Keeps [] checkSpelling fun _ => [] := by
  refine keeps_current.pass fun t => ?_
  split
  next => exact .throw
  next => exact .done .rfl

theorem keeps_advance : L.Keeps [] Rule.advance fun _ => [] :=
  fun _ others hs => keeps_checkSpelling _ others (L.advance hs)

theorem keeps_eat (t : Terminal) : L.Keeps [] (eat t) fun _ => [] := by
  refine (keeps_at? t).pass fun b => ?_
  cases b with
  | true => exact keeps_advance.pass fun _ => .done .rfl
  | false => exact .done .rfl

/-- One of two rules, as a terminal says. -/
theorem Keeps.ifEat {t : Terminal} {y z : Rule β} (hy : L.Keeps given y g')
    (hz : L.Keeps given z g') : L.Keeps given (do if ← eat t then y else z) g' := by
  refine (keeps_eat t).pass fun b => ?_
  cases b with
  | true => exact hy
  | false => exact hz

/-- One of two rules, as a look at the tokens says. -/
theorem Keeps.ifLook {look : Rule Bool} {y z : Rule β} (h : L.Keeps [] look fun _ => [])
    (hy : L.Keeps given y g') (hz : L.Keeps given z g') :
    L.Keeps given (do if ← look then y else z) g' := by
  refine h.pass fun b => ?_
  cases b with
  | true => exact hy
  | false => exact hz

theorem keeps_require (b : Bool) (e : Expectation) : L.Keeps [] (require b e) fun _ => [] := by
  cases b with
  | true => exact .done .rfl
  | false => exact .unexpected

theorem keeps_expect (t : Terminal) : L.Keeps [] (expect t) fun _ => [] :=
  .ifEat (.done .rfl) .unexpected

/-! ### Adding nodes -/

theorem keeps_push {node : Node} (h : L.drawn node) :
    L.Keeps [] (Rule.push node) fun id => [id] := by
  intro s others hs
  rw [List.append_nil] at hs
  exact L.push h hs

theorem keeps_pushTag (t : Tag) : L.Keeps [] (pushTag t) fun id => [id] :=
  fun s others hs => keeps_push (L.draw (.tag t) hs) s others hs

/-- A list takes the nodes at hand, in whichever order they were added. -/
theorem keeps_pushList (h : given.Perm items) : L.Keeps given (Rule.pushList items) fun id => [id] :=
  fun _ others hs => L.pushList (L.perm (h.append_left others) hs)

theorem keeps_tagged (t : Tag) (h : given.Perm items) :
    L.Keeps given (tagged t items) fun id => [id] := by
  refine (keeps_pushTag t).bind fun head => keeps_pushList ?_
  exact List.perm_append_comm.trans (.cons head h)

/-- A node is added where the tokens are ahead that it is drawn from. -/
theorem result_pushAtom {s : ParseState} {others : List NodeId} {node : Node}
    (h : node.DrawnFrom s.stream.rest) (hs : L.holds s (others ++ [])) :
    L.Result others (fun id => [id]) (pushAtom node s) := by
  have hkeeps : L.Keeps [] (pushAtom node) fun id => [id] := by
    refine (keeps_push (L.draw h hs)).then fun id => ?_
    exact keeps_advance.pass fun _ => .done .rfl
  exact hkeeps s others hs

/-- A double-precision number is added where its token stands. -/
theorem result_float {s : ParseState} {others : List NodeId} {y : Binary64}
    (h : s.stream.current.kind.float? L.policy = some y) (hs : L.holds s others) :
    L.Result others (fun id => [id]) (pushAtom (.float y) s) := by
  have hpush : Rule.push (.float y) s = .ok s.arena.size ⟨s.stream, s.arena.push (.float y)⟩ := rfl
  rw [pushAtom, bind_of_ok hpush]
  have hfloat := L.float h hs
  rw [← List.append_nil (_ ++ _)] at hfloat
  have hchecked := keeps_checkSpelling _ _ hfloat
  have hadvance : Rule.advance ⟨s.stream, s.arena.push (.float y)⟩ =
      checkSpelling ⟨s.stream.advance, s.arena.push (.float y)⟩ := rfl
  cases hrun : checkSpelling ⟨s.stream.advance, s.arena.push (.float y)⟩ with
  | error e s' =>
    rw [hrun] at hadvance hchecked
    rw [bind_of_error hadvance]
    exact hchecked
  | ok u s' =>
    rw [hrun] at hadvance hchecked
    rw [bind_of_ok hadvance]
    rw [Result, List.append_nil] at hchecked
    exact hchecked

theorem keeps_identifier : L.Keeps [] identifier fun id => [id] := by
  intro s others hs
  rw [identifier, bind_of_ok (current_run s)]
  split
  next ht => exact result_pushAtom (.name s.stream.current_mem_rest ht) hs
  next => exact L.fail hs

/-! ### Repetition -/

/-- What a step keeps a repetition keeps; a step that gives nothing leaves its nodes at hand. -/
theorem Keeps.iterate {step : α → Rule (Option α)}
    (hstep : ∀ a, L.Keeps (g a) (step a) fun o => g (o.getD a)) (a : α) :
    L.Keeps (g a) (Rule.iterate step a) g := by
  intro s others hs
  have hsome : ∀ a s b s', L.holds s (others ++ g a) → step a s = .ok (some b) s' →
      L.holds s' (others ++ g b) := by
    intro a s b s' hs hrun
    have hresult := hstep a s others hs
    rwa [hrun] at hresult
  obtain ⟨c, s₁, hs₁, hlast⟩ := iterate_last hsome hs
  have hresult := hstep c s₁ others hs₁
  rcases hlast with ⟨e, s', hrun, hend⟩ | ⟨s', hrun, hend⟩ | ⟨b, s', hrun, _, hend⟩
  all_goals
    rw [hrun] at hresult
    rw [hend]
    exact hresult

/-- One or more items divided by a terminal. -/
theorem keeps_separatedBy (t : Terminal) {item : Rule NodeId}
    (h : L.Keeps [] item fun id => [id]) : L.Keeps [] (separatedBy t item) id := by
  refine h.bind fun first => ?_
  refine Keeps.iterate (g := id) (fun ids => ?_) [first]
  refine .ifEat ?_ (.done .rfl)
  exact h.bind fun next => .done .rfl

theorem keeps_commaSeparated {item : Rule NodeId} (h : L.Keeps [] item fun id => [id]) :
    L.Keeps [] (commaSeparated item) id := keeps_separatedBy _ h

theorem keeps_identifiers : L.Keeps [] identifiers id := keeps_commaSeparated keeps_identifier

/-- Nodes that are added only behind a terminal. -/
theorem keeps_behind (t : Terminal) {r : Rule (List NodeId)} (h : L.Keeps [] r id) :
    L.Keeps [] (behind t r) id := .ifEat h (.done .rfl)

/-- A single node as a list of nodes. -/
theorem Keeps.single {r : Rule NodeId} (h : L.Keeps given r fun id => [id]) :
    L.Keeps given (do return [← r]) id := h.then fun _ => .done .rfl

/-- The rules one level deeper keep the ledger, and follow its policy. -/
structure Context (L : Ledger) (c : TaggedSql.Context) : Prop where
  policy : c.policy = L.policy
  enter : ∀ entry, L.Keeps [] (c.enter entry) fun id => [id]

namespace Context

variable {c : TaggedSql.Context}

theorem expression (h : L.Context c) : L.Keeps [] c.expression fun id => [id] := h.enter _

theorem expressions (h : L.Context c) : L.Keeps [] c.expressions id :=
  keeps_commaSeparated h.expression

theorem query (h : L.Context c) : L.Keeps [] c.query fun id => [id] := h.enter _

theorem requiredQuery (h : L.Context c) : L.Keeps [] c.requiredQuery fun id => [id] :=
  .ifLook keeps_atQuery h.query .unexpected

theorem parenthesizedQuery (h : L.Context c) : L.Keeps [] c.parenthesizedQuery fun id => [id] := by
  refine (keeps_expect _).pass fun _ => ?_
  refine h.requiredQuery.then fun query => ?_
  exact (keeps_expect _).pass fun _ => .done .rfl

end Context

end Ledger

end TaggedSql
