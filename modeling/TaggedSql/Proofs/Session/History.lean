import TaggedSql.Proofs.Plan.Accounting
import TaggedSql.Proofs.Session.Depth
import TaggedSql.Proofs.Session.Relocated

/-!
# The history of a session

Whatever has been called on a session before, and with whatever outcome, the next call gives what it
gives from the same place of a session on which nothing has been called. Only two things are handed
on from call to call: the place in the source, where the tokens are read under the policy of the
settings, and the nodes that failed calls have left over, which stand before those of the next tree.
The depth is not among them: counted on the machine for plans, it is zero between any two calls.

* `Call`, `Session.after`: the calls on a session, and `after_induction`: what each of them keeps;
* `Unaffected`: a call that nodes left over do not affect;
* `Session.Forgetful`: what holds of a session between two calls;
* `forgetful_after`: it holds after any calls.
-/

namespace TaggedSql

open Rule Statement Lockstep

/-- What can be called on a session. -/
inductive Call where
  | statement
  | statements
  | configure (settings : Settings)
  deriving DecidableEq, Repr

namespace Session

/-- The session behind a call, whatever its outcome is. -/
def call (s : Session) : Call → Session
  | .statement => s.statement.2
  | .statements => s.statements.2
  | .configure settings => s.configure settings

/-- The session behind several calls. -/
def after (s : Session) (calls : List Call) : Session := calls.foldl call s

/-- What a call keeps holds behind any calls. -/
theorem after_induction {P : Session → Prop} (hcall : ∀ s c, P s → P (s.call c)) {s : Session}
    (hs : P s) (calls : List Call) : P (s.after calls) := by
  induction calls generalizing s with
  | nil => exact hs
  | cons c calls ih => exact ih (hcall s c hs)

/-- A call reads the same source under the same settings. -/
theorem source_run {α : Type} (s : Session) (x : Rule α) : (s.run x).2.source = s.source := by
  rw [run]
  cases x s.state <;> rfl

theorem settings_run {α : Type} (s : Session) (x : Rule α) : (s.run x).2.settings = s.settings := by
  rw [run]
  cases x s.state <;> rfl

/-- The session at the same place with no nodes left over. -/
def fresh (s : Session) : Session := { s with state := ⟨s.state.stream, {}⟩ }

end Session

/-- Nodes left over affect neither the result of a call, which has them before its own, nor the place
behind it. No level is in use before the call, and no node is left over behind it if it succeeds. -/
structure Unaffected {α : Type} (run : Session → Except Failure α × Session)
    (behind : Arena → α → α) (s : Session) : Prop where
  result : (run s).1 = (run s.fresh).1.map (behind s.state.arena)
  place : (run s).2.state.stream = (run s.fresh).2.state.stream
  emptied : ∀ a, (run s).1 = .ok a → (run s).2.state.arena = {}
  /-- Each level takes a token, so the limit is not exceeded if it is greater than the number of tokens
  ahead. -/
  levels : s.state.stream.size < s.settings.maxDepth → ∀ e, (run s).1 = .error e →
    e.isTooDeep = false

/-- Where a session stands: in its source, with the tokens ahead that the policy of its settings
gives. -/
structure Session.Stands (source : String) (s : Session) : Prop where
  kept : s.source = source
  policy : (Stream.ofSource s.settings.overflow source).Later s.state.stream

/-- What holds of a session between two calls. -/
structure Session.Forgetful (source : String) (s : Session) : Prop extends s.Stands source where
  statement : Unaffected Session.statement (fun before t => t.behind before) s
  statements : Unaffected Session.statements Tree.firstBehind s
  /-- The depth is zero between calls: the machine that counts it starts each call at zero, and halts at
  zero in the state behind the call, with the result of the call. -/
  counted :
    Reaches s.settings (Machine.start (singlePlan s.settings s.source).plan s.state)
        ⟨.halt s.statement.1, s.statement.2.state, 0⟩ ∧
      Reaches s.settings (Machine.start (scriptPlan s.settings s.source).plan s.state)
        ⟨.halt s.statements.1, s.statements.2.state, 0⟩
  /-- With new settings the source is read as in a new session. -/
  configured : ∀ settings,
    (s.configure settings).statement.1 =
        (parse settings source).map (fun t => t.behind s.state.arena) ∧
      (s.configure settings).statements.1 =
        (parseScript settings source).map (Tree.firstBehind s.state.arena)
  /-- A tree behind the nodes left over cannot be told from the tree alone. -/
  equivalent : ∀ t : Tree, t.Equivalent (t.behind s.state.arena)

/-! ### Single calls -/

theorem meet_roomy (policy : OverflowPolicy) (stream : Stream) :
    (roomy policy).Meets stream stream :=
  Stream.Invariant.meet_self _ _ (fun _ => trivial) fun _ _ => rfl

/-- A call is unaffected if its rule is: nodes left over only stand before those of its result, it
leaves no nodes over, and where it has more levels than tokens it does not exceed the limit. -/
theorem Unaffected.of_rule {α : Type} {x : Settings → String → Rule α} {behind : Arena → α → α}
    {R : ParseState → ParseState → Prop} {k : α → Bool} {V : α → α → Prop} {s : Session}
    (hrelates : Relates (behind s.state.arena) R (x s.settings s.source s.fresh.state)
      (x s.settings s.source s.state)) (hR : ∀ s t, R s t → s.stream = t.stream)
    (hempty : ∀ a state, x s.settings s.source s.state = .ok a state → state.arena = {})
    (hroomy : s.state.stream.size < s.settings.maxDepth →
      (roomy s.settings.overflow).Agrees s.state.stream s.state.stream k V
        (x s.settings s.source s.state) (x s.settings s.source s.state)) :
    Unaffected (fun s => s.run (x s.settings s.source)) behind s := by
  obtain ⟨hresult, hplace⟩ := hrelates.run (s := s.fresh) (t := s) hR
  refine ⟨hresult, hplace, fun a ha => ?_, fun hroom e he => ?_⟩
  · dsimp only [Session.run] at ha ⊢
    cases hrun : x s.settings s.source s.state with
    | error e state =>
      rw [hrun] at ha
      cases ha
    | ok b state => exact hempty b state hrun
  · have houtcome : (roomy s.settings.overflow).Outcome V (s.run (x s.settings s.source)).1
        (s.run (x s.settings s.source)).1 := (hroomy hroom).outcome
    rw [show (s.run (x s.settings s.source)).1 = .error e from he] at houtcome
    cases houtcome with
    | excused hfalse => exact hfalse.elim
    | failure hfailure => exact hfailure.2

theorem unaffected_statement (s : Session) :
    Unaffected Session.statement (fun before t => t.behind before) s := by
  apply Unaffected.of_rule (relates_single s.settings s.source s.state.stream s.state.arena)
  · intro s t h
    rw [h]
  · intro t state h
    exact arena_of_single h
  · intro hroom
    exact agrees_single whole_alone (contexts_roomy s.settings s.settings rfl rfl _) (meet_roomy _ _)
      rfl hroom

theorem unaffected_statements (s : Session) :
    Unaffected Session.statements Tree.firstBehind s := by
  apply Unaffected.of_rule (relates_script s.settings s.source s.state.stream s.state.arena)
  · intro s t h
    exact h
  · intro trees state h
    exact arena_of_script h
  · intro hroom
    exact agrees_script whole_alone (contexts_roomy s.settings s.settings rfl rfl _) (meet_roomy _ _)
      rfl hroom

/-! ### Any calls -/

namespace Session.Stands

variable {source : String} {s : Session}

theorem start (settings : Settings) (source : String) : (Session.start settings source).Stands source :=
  ⟨rfl, .refl _⟩

theorem configure (h : s.Stands source) (settings : Settings) :
    (s.configure settings).Stands source := by
  refine ⟨h.kept, ?_⟩
  show Stream.Later _ (Stream.ofSource settings.overflow s.source)
  rw [h.kept]
  exact .refl _

/-- A rule goes on to a later place, also if it fails. -/
theorem run {α : Type} {x : Rule α} {V : α → Prop} (h : s.Stands source)
    (hx : (Ledger.later s.settings.overflow s.state.stream).Gives x V) :
    (s.run x).2.Stands source := by
  have hlater := hx.failed_run (s := s) (.refl _)
  refine ⟨(s.source_run x).trans h.kept, ?_⟩
  rw [s.settings_run x]
  exact h.policy.trans hlater

theorem call (h : s.Stands source) (c : Call) : (s.call c).Stands source := by
  cases c with
  | statement => exact h.run (Ledger.gives_single Ledger.later_tree)
  | statements => exact h.run (Ledger.gives_script Ledger.later_tree)
  | configure settings => exact h.configure settings

theorem after (h : s.Stands source) (calls : List Call) : (s.after calls).Stands source :=
  Session.after_induction (fun _ c hs => hs.call c) h calls

end Session.Stands

/-- After any calls, whatever their outcomes were, the next call is unaffected by them: it has what it
would have from the same place of a new session, behind the nodes that are left over. -/
theorem forgetful_after (settings : Settings) (source : String) (calls : List Call) :
    ((Session.start settings source).after calls).Forgetful source := by
  have hstands := (Session.Stands.start settings source).after calls
  generalize (Session.start settings source).after calls = s at hstands
  obtain ⟨rfl, hpolicy⟩ := hstands
  refine ⟨⟨rfl, hpolicy⟩, unaffected_statement s, unaffected_statements s,
    ⟨reaches_halt _ s, reaches_halt _ s⟩, fun settings => ?_,
    fun t => t.equivalent_behind s.state.arena⟩
  -- Without the nodes left over, new settings make a new session.
  exact ⟨(unaffected_statement (s.configure settings)).result,
    (unaffected_statements (s.configure settings)).result⟩

-- A statement that fails leaves nodes over, and the next tree begins with them.
example : ((Session.start {} "SELECT a +").after [.statement]).state.arena.size = 2 := by
  decide +kernel

end TaggedSql
