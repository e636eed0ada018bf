import TaggedSql.Proofs.Ledger.Whole
import TaggedSql.Proofs.Session.Script
import TaggedSql.Proofs.Tree.Relocation

/-!
# Calls with nodes left over

A call may find nodes in the arena that an earlier call has left there. It goes on as if there were
none: it fails at the same place and in the same way, or it reads the same tree, behind the nodes
that are left over.

* `Stream.Later`: a later place in a stream;
* `Ledger.later`: a rule never goes back in its stream, nor does a statement;
* `Lockstep.relocated`: a run with an empty arena beside one with nodes left over;
* `Relates`: a result that is had up to a change of its value;
* `relates_tree`, `relates_single`, `relates_script`: calls with nodes left over.
-/

namespace TaggedSql

/-! ### Later places -/

/-- A later place in a stream: some tokens at the front have been taken. -/
structure Stream.Later (s t : Stream) : Prop where
  ahead : t.ahead <:+ s.ahead
  stop : t.stop = s.stop

namespace Stream.Later

variable {s t u : Stream}

theorem refl (s : Stream) : s.Later s := ⟨List.suffix_rfl, rfl⟩

theorem trans (h : s.Later t) (h' : t.Later u) : s.Later u :=
  ⟨h'.ahead.trans h.ahead, h'.stop.trans h.stop⟩

theorem advance (h : s.Later t) : s.Later t.advance := ⟨(List.tail_suffix _).trans h.ahead, h.stop⟩

/-- Two places at which equally many tokens are ahead are the same. -/
theorem eq_of_size (ht : s.Later t) (hu : s.Later u) (hsize : t.size = u.size) : t = u := by
  have hahead : t.ahead = u.ahead :=
    (List.suffix_of_suffix_length_le ht.ahead hu.ahead (Nat.le_of_eq hsize)).eq_of_length hsize
  have hstop : t.stop = u.stop := ht.stop.trans hu.stop.symm
  cases t
  cases u
  cases hahead
  cases hstop
  rfl

end Stream.Later

namespace Ledger

open Rule Statement

/-- A rule takes tokens from the front of its stream only. -/
def later (policy : OverflowPolicy) (s : Stream) : Ledger where
  policy
  holds t _ := s.Later t.stream
  failed t := s.Later t.stream
  fail h := h
  perm _ h := h
  advance h := h.advance
  push _ h := h
  float _ h := h.advance
  pushList h := h

variable {settings : Settings} {source : String} {s : Stream}

theorem later_tree : (later settings.overflow s).Gives (tree settings source) fun _ => True :=
  gives_tree rfl fun _ _ hs => ⟨trivial, hs⟩

end Ledger

/-! ### Runs with nodes left over -/

namespace Lockstep

open Statement

/-- A run with an empty arena beside one with nodes left over. -/
def relocated (policy : OverflowPolicy) (before : Arena) : Lockstep where
  left := policy
  right := policy
  stream := (heedless policy).stream
  arena a b := b = a.behind before
  span := Eq
  node i j := j = i + before.size
  excused _ := False
  failure := Eq
  front := (heedless policy).front
  text := (heedless policy).text
  frontSpan := (heedless policy).frontSpan
  second := (heedless policy).second
  third := (heedless policy).third
  advance := by
    rintro s _ ⟨rfl, _⟩ _
    by_cases hp : ∃ p, s.advance.current.kind = .problem p
    · obtain ⟨p, hp⟩ := hp
      exact .failure hp hp rfl
    · exact .goOn ⟨rfl, trivial⟩ (fun p h => hp ⟨p, h⟩) fun p h => hp ⟨p, h⟩
  unexpected := by
    rintro s _ e ⟨rfl, _⟩
    exact .inr rfl
  promote h := h
  range := by
    rintro s _ hpolicy ⟨rfl, _⟩ _
    exact .inr ⟨hpolicy, rfl⟩
  join := join_same
  push := by
    rintro a _ node _ rfl hmatches
    have hmoved : node.moved before.children.size = node := by
      cases hmatches <;> rfl
    refine ⟨a.size_behind before, ?_⟩
    rw [← hmatches.eq, Arena.push_behind, hmoved]
  pushList := by
    rintro a _ ids ids' rfl hids
    have hmap : ids' = ids.map (· + before.size) := by
      induction hids with
      | nil => rfl
      | cons h _ ih => rw [h, ih, List.map_cons]
    exact ⟨a.size_behind before, by rw [hmap, Arena.pushList_behind]⟩

theorem contexts_relocated (settings : Settings) (before : Arena) (n : Nat) :
    (relocated settings.overflow before).Contexts (context settings) (context settings) n := by
  refine contexts_context settings rfl rfl ?_ n
  rintro s _ ⟨rfl, _⟩
  exact .inr rfl

end Lockstep

/-! ### Results up to a change of the value -/

section Relates

variable {α β γ δ : Type}

/-- The second result is the first one with another value, and states as `R` says; where the first run
fails the second one fails in the same way at the same place. -/
inductive Relates (f : α → β) (R : ParseState → ParseState → Prop) :
    EStateM.Result Failure ParseState α → EStateM.Result Failure ParseState β → Prop
  | ok {a s t} (h : R s t) : Relates f R (.ok a s) (.ok (f a) t)
  | error {e s t} (h : s.stream = t.stream) : Relates f R (.error e s) (.error e t)

variable {f : α → β} {g : γ → δ} {R S : ParseState → ParseState → Prop} {x : Rule α} {y : Rule β}
  {k : α → Rule γ} {l : β → Rule δ} {s t : ParseState}

theorem Relates.bind (h : Relates f R (x s) (y t))
    (hk : ∀ a s t, R s t → Relates g S (k a s) (l (f a) t)) :
    Relates g S ((x >>= k) s) ((y >>= l) t) := by
  generalize hx : x s = r at h
  generalize hy : y t = r' at h
  cases h with
  | ok hR =>
    rw [Rule.bind_of_ok hx, Rule.bind_of_ok hy]
    exact hk _ _ _ hR
  | error hstream =>
    rw [Rule.bind_of_error hx, Rule.bind_of_error hy]
    exact .error hstream

/-- A rule beside itself, in one state. -/
theorem Relates.refl (x : Rule α) (s : ParseState) : Relates id Eq (x s) (x s) := by
  cases x s with
  | ok a s' => exact .ok rfl
  | error e s' => exact .error rfl

/-- The spelling of a token does not depend on the arena. -/
theorem Relates.checkSpelling {k : Unit → Rule γ} {l : Unit → Rule δ} (hstream : s.stream = t.stream)
    (h : Relates g S (k () s) (l () t)) :
    Relates g S ((Rule.checkSpelling >>= k) s) ((Rule.checkSpelling >>= l) t) := by
  by_cases hp : ∃ p, s.stream.current.kind = .problem p
  · obtain ⟨p, hp⟩ := hp
    have hp' : t.stream.current.kind = .problem p := hstream ▸ hp
    rw [Rule.bind_of_error (Rule.checkSpelling_run_problem hp),
      Rule.bind_of_error (Rule.checkSpelling_run_problem hp'), hstream]
    exact .error hstream
  · have hspelled : ∀ p, s.stream.current.kind ≠ .problem p := fun p h => hp ⟨p, h⟩
    have hspelled' : ∀ p, t.stream.current.kind ≠ .problem p := hstream ▸ hspelled
    rw [Rule.bind_of_ok (Rule.checkSpelling_run hspelled),
      Rule.bind_of_ok (Rule.checkSpelling_run hspelled')]
    exact h

/-- What a session gives after one of two related runs. -/
theorem Relates.run {s t : Session} (h : Relates f R (x s.state) (y t.state))
    (hR : ∀ s t, R s t → s.stream = t.stream) :
    (t.run y).1 = (s.run x).1.map f ∧
      (t.run y).2.state.stream = (s.run x).2.state.stream := by
  rw [Session.run, Session.run]
  generalize x s.state = r at h ⊢
  generalize y t.state = r' at h ⊢
  cases h with
  | ok h => exact ⟨rfl, (hR _ _ h).symm⟩
  | error h => exact ⟨rfl, h.symm⟩

end Relates

/-! ### Statements and scripts -/

open Rule Statement Lockstep

variable (settings : Settings) (source : String) (stream : Stream) (before : Arena)

/-- A tree is read behind the nodes left over, and takes them with it. -/
theorem relates_tree :
    Relates (·.behind before) Eq (tree settings source ⟨stream, {}⟩)
      (tree settings source ⟨stream, before⟩) := by
  have hagrees := follows_statement (contexts_relocated settings before (stream.size + 1))
    ⟨stream, {}⟩ ⟨stream, before⟩ ⟨⟨rfl, trivial⟩, (Arena.empty_behind before).symm⟩ trivial
    (Nat.lt_succ_self _)
  have hlater : ∀ a, (Ledger.later settings.overflow stream).Result [] (fun id => [id])
      (statement (context settings) ⟨stream, a⟩) := fun a =>
    Ledger.keeps_statement (Ledger.context_enter rfl settings.maxDepth) _ [] (.refl stream)
  have hclean := hlater {}
  have hleft := hlater before
  generalize hrun : statement (context settings) ⟨stream, {}⟩ = r at hagrees hclean
  generalize hrun' : statement (context settings) ⟨stream, before⟩ = r' at hagrees hleft
  cases hagrees with
  | @ok root root' s t j hnode hbeside =>
    rw [tree, bind_of_ok hrun, bind_of_ok hrun']
    obtain ⟨⟨hstream, _⟩, harena⟩ := hbeside
    have hnode' : root' = root + before.size := hnode
    have harena' : t.arena = s.arena.behind before := harena
    show Relates (Tree.behind · before) Eq (.ok ⟨source, s.arena, root⟩ ⟨s.stream, {}⟩)
      (.ok ⟨source, t.arena, root'⟩ ⟨t.stream, {}⟩)
    rw [hnode', harena', ← hstream]
    exact .ok rfl
  | excused h => exact h.elim
  | @failure e e' s t h j hs ht =>
    rw [tree, bind_of_error hrun, bind_of_error hrun']
    have hsize : s.stream.size = t.stream.size := by
      have : s.stream.size + j = t.stream.size + j := hs.trans ht.symm
      omega
    obtain rfl : e = e' := h
    exact .error (hclean.eq_of_size hleft hsize)

theorem relates_single :
    Relates (·.behind before) Eq (single settings source ⟨stream, {}⟩)
      (single settings source ⟨stream, before⟩) := by
  refine .checkSpelling rfl ?_
  refine (relates_tree settings source stream before).bind ?_
  rintro t s _ rfl
  refine (Relates.refl _ s).bind ?_
  rintro _ s _ rfl
  refine (Relates.refl _ s).bind ?_
  rintro ends s _ rfl
  cases ends with
  | true => exact .ok rfl
  | false => exact .error rfl

/-- The first of several trees behind the nodes of an arena. -/
def Tree.firstBehind (before : Arena) : List Tree → List Tree
  | [] => []
  | t :: ts => t.behind before :: ts

/-- Only the first tree of a script is read behind the nodes left over. -/
theorem relates_statements :
    Relates (Tree.firstBehind before) (fun s t => s.stream = t.stream)
      (statements settings source [] ⟨stream, {}⟩)
      (statements settings source [] ⟨stream, before⟩) := by
  -- The induction is on the tokens ahead: each semicolon before the first statement takes one.
  induction hsize : stream.size using Nat.strongRecOn generalizing stream with
  | ind size ih =>
    by_cases hsemicolon : stream.current.kind = .symbol .semicolon
    · rw [statements_of_semicolon hsemicolon, statements_of_semicolon hsemicolon]
      exact .checkSpelling rfl (ih _ (hsize ▸ size_advance_lt hsemicolon) stream.advance rfl)
    cases hend : stream.current.isEnd with
    | true =>
      rw [statements_of_end hend, statements_of_end hend]
      exact .ok rfl
    | false =>
      rw [statements_of_statement hsemicolon hend, statements_of_statement hsemicolon hend]
      refine (relates_tree settings source stream before).bind ?_
      rintro t s _ rfl
      refine (Relates.refl _ s).bind ?_
      rintro _ s _ rfl
      show Relates _ _ (statements settings source [t] s)
        (statements settings source [t.behind before] s)
      rw [statements_append settings source [t], statements_append settings source [t.behind before]]
      cases hrun : statements settings source [] s with
      | ok ts s' =>
        rw [map_of_ok hrun, map_of_ok hrun]
        exact .ok rfl
      | error e s' =>
        rw [map_of_error hrun, map_of_error hrun]
        exact .error rfl

theorem relates_script :
    Relates (Tree.firstBehind before) (fun s t => s.stream = t.stream)
      (script settings source ⟨stream, {}⟩) (script settings source ⟨stream, before⟩) := by
  refine .checkSpelling rfl ?_
  refine (relates_statements settings source stream before).bind ?_
  intro trees s t hstream
  cases trees with
  | nil =>
    show Relates _ _ (.error (.unexpected .statement s.stream.current) s)
      (.error (.unexpected .statement t.stream.current) t)
    rw [hstream]
    exact .error hstream
  | cons tree trees => exact .ok hstream

end TaggedSql
