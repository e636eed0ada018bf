import TaggedSql.Proofs.Plan.Calls

/-!
# A machine for plans

The machine carries plans out one step at a time. It keeps what is still to be done on a stack of its
own, and it counts the rules that it has entered and not left: a rule is entered only while the count
is below the limit, and left by a value or by a failure. Nothing bounds its repetitions, nor the number
of its steps.

* `Stack`: what is still to be done;
* `Moment`: the machine between two steps;
* `Machine.step`: one step;
* `Moment.Accounted`: the count is exact, stays within its bounds, and every round of a repetition
  takes a token.
-/

namespace TaggedSql

/-- What a plan goes on with behind the rule or the statement that it enters with its first step. -/
def Plan.entered? : {l : Layer} → {α : Type} → Plan l α → Option (NodeId → Plan l α)
  | _, _, .enter _ next => some next
  | _, _, .statement next => some next
  | _, _, _ => none

/-- What is still to be done behind a plan. -/
inductive Stack (γ : Type) : Layer → Type → Type 1 where
  /-- Nothing: the value of the plan is the result. -/
  | done : Stack γ .source γ
  /-- A rule was entered. -/
  | level {α : Type} (next : NodeId → Plan .statement α) (rest : Stack γ .statement α) :
      Stack γ .statement NodeId
  /-- A statement was begun, with so many tokens ahead. -/
  | root {α : Type} (begun : Nat) (next : NodeId → Plan .source α) (rest : Stack γ .source α) :
      Stack γ .statement NodeId
  /-- A round of a repetition was begun, with so many tokens ahead. -/
  | round {l : Layer} {α β : Type} (begun : Nat) (step : β → Plan l (Option β)) (b : β)
      (next : β → Plan l α) (rest : Stack γ l α) : Stack γ l (Option β)

namespace Stack

variable {γ : Type}

/-- The number of rules entered and not left. -/
def levels : {l : Layer} → {α : Type} → Stack γ l α → Nat
  | _, _, .done | _, _, .root _ _ _ => 0
  | _, _, .level _ rest => rest.levels + 1
  | _, _, .round _ _ _ _ rest => rest.levels

/-- The number of tokens that were ahead when the statement began, inside a statement. -/
def begun? : {l : Layer} → {α : Type} → Stack γ l α → Option Nat
  | _, _, .done => none
  | _, _, .root begun _ _ => some begun
  | _, _, .level _ rest => rest.begun?
  | _, _, .round _ _ _ _ rest => rest.begun?

/-- Whether a rule is left behind the plan. -/
def leaves : {l : Layer} → {α : Type} → Stack γ l α → Bool
  | _, _, .level _ _ => true
  | _, _, _ => false

/-- A value that leads to a further round is reached with fewer tokens ahead than the round began
with. -/
def Advanced : {l : Layer} → {α : Type} → Stack γ l α → α → ParseState → Prop
  | _, _, .round begun _ _ _ _, some _, s => s.stream.size < begun
  | _, _, _, _, _ => True

/-- Between statements no rule has been entered. -/
theorem levels_eq_zero {l : Layer} {α : Type} (k : Stack γ l α) (hl : l = .source) :
    k.levels = 0 := by
  induction k with
  | done => rfl
  | level next rest => cases hl
  | root begun next rest => cases hl
  | round begun step b next rest ih => exact ih hl

theorem begun?_eq_none {l : Layer} {α : Type} (k : Stack γ l α) (hl : l = .source) :
    k.begun? = none := by
  induction k with
  | done => rfl
  | level next rest => cases hl
  | root begun next rest => cases hl
  | round begun step b next rest ih => exact ih hl

theorem levels_pos {l : Layer} {α : Type} {k : Stack γ l α} (h : k.leaves = true) :
    0 < k.levels := by
  cases k with
  | level next rest => exact Nat.succ_pos _
  | _ => cases h

end Stack

/-- What the machine is doing: carrying out a plan, passing a failure on, or nothing any more. -/
inductive Control (γ : Type) : Type 1 where
  | run {l : Layer} {α : Type} (plan : Plan l α) (stack : Stack γ l α)
  | unwind {l : Layer} {α : Type} (failure : Failure) (stack : Stack γ l α)
  | halt (result : Except Failure γ)

namespace Control

variable {γ : Type}

def levels : Control γ → Nat
  | .run _ k | .unwind _ k => k.levels
  | .halt _ => 0

def begun? : Control γ → Option Nat
  | .run _ k | .unwind _ k => k.begun?
  | .halt _ => none

/-- Whether a rule is left in the next step. -/
def leaves : Control γ → Bool
  | .run (.done _) k | .unwind _ k => k.leaves
  | _ => false

end Control

/-- The machine between two steps. -/
structure Moment (γ : Type) where
  control : Control γ
  state : ParseState
  /-- The count of the rules entered and not left. -/
  depth : Nat

namespace Machine

variable {γ : Type}

/-- Hands a value to what is still to be done. -/
def resume (s : ParseState) (depth : Nat) :
    {l : Layer} → {α : Type} → Stack γ l α → α → Moment γ
  | _, _, .done, a => ⟨.halt (.ok a), s, depth⟩
  | _, _, .level next rest, id => ⟨.run (next id) rest, s, depth - 1⟩
  | _, _, .root _ next rest, id => ⟨.run (next id) rest, s, depth⟩
  | _, _, .round _ _ b next rest, none => ⟨.run (next b) rest, s, depth⟩
  | _, _, .round _ step _ next rest, some b =>
    ⟨.run (step b) (.round s.stream.size step b next rest), s, depth⟩

/-- Passes a failure on to what was still to be done. -/
def unwind (s : ParseState) (depth : Nat) (e : Failure) :
    {l : Layer} → {α : Type} → Stack γ l α → Moment γ
  | _, _, .done => ⟨.halt (.error e), s, depth⟩
  | _, _, .level _ rest => ⟨.unwind e rest, s, depth - 1⟩
  | _, _, .root _ _ rest => ⟨.unwind e rest, s, depth⟩
  | _, _, .round _ _ _ _ rest => ⟨.unwind e rest, s, depth⟩

/-- Carries out the first step of a plan. A rule is entered if the depth is below the limit, and a
statement begins at depth zero. -/
def carry (settings : Settings) (s : ParseState) (depth : Nat) :
    {l : Layer} → {α : Type} → Plan l α → Stack γ l α → Moment γ
  | _, _, .done a, k => resume s depth k a
  | _, _, .look n next, k => ⟨.run (next (s.stream.peek n)) k, s, depth⟩
  | _, _, .policy next, k => ⟨.run (next settings.overflow) k, s, depth⟩
  | _, _, .take next, k => ⟨.run next k, { s with stream := s.stream.advance }, depth⟩
  | _, _, .fail failure _, k => ⟨.unwind (failure s.stream.current) k, s, depth⟩
  | _, _, .push node next, k =>
    ⟨.run (next s.arena.size) k, { s with arena := s.arena.push node }, depth⟩
  | _, _, .pushList items next, k =>
    ⟨.run (next s.arena.size) k, { s with arena := s.arena.pushList items }, depth⟩
  | _, _, .harvest next, k => ⟨.run (next s.arena) k, { s with arena := {} }, depth⟩
  | _, _, .enter entry next, k =>
    if depth < settings.maxDepth then
      ⟨.run (Statement.bodyPlan entry).plan (.level next k), s, depth + 1⟩
    else ⟨.unwind (.tooDeep settings.maxDepth s.stream.current) k, s, depth⟩
  | _, _, .statement next, k =>
    ⟨.run Statement.statementPlan.plan (.root s.stream.size next k), s, 0⟩
  | _, _, .loop step b next, k => ⟨.run (step b) (.round s.stream.size step b next k), s, depth⟩

/-- One step of the machine. -/
def step (settings : Settings) (m : Moment γ) : Moment γ :=
  match m.control with
  | .run plan k => carry settings m.state m.depth plan k
  | .unwind e k => unwind m.state m.depth e k
  | .halt _ => m

/-- The machine before the first step of a plan. -/
def start (plan : Plan .source γ) (s : ParseState) : Moment γ := ⟨.run plan .done, s, 0⟩

end Machine

namespace Moment

variable {γ : Type} (settings : Settings) (m : Moment γ)

/-- A round that leads to a further one has taken a token. -/
def Advanced : Prop :=
  match m.control with
  | .run (.done a) k => k.Advanced a m.state
  | _ => True

/-- A rule that is about to be entered, or a statement that is about to begin, is left again: with a
value or with a failure, the stack and the depth are then what they are now. -/
def Returns : Prop :=
  match m.control with
  | .run plan k => ∀ next, plan.entered? = some next → ∃ n s',
      (∃ id, (Machine.step settings)^[n] m = ⟨.run (next id) k, s', m.depth⟩) ∨
        ∃ e, (Machine.step settings)^[n] m = ⟨.unwind e k, s', m.depth⟩
  | _ => True

/-- The depth is counted exactly, and every round of a repetition takes a token. -/
structure Accounted : Prop where
  depth_eq : m.depth = m.control.levels
  depth_le : m.depth ≤ settings.maxDepth
  /-- The depth never falls below zero. -/
  depth_pos : m.control.leaves = true → 0 < m.depth
  /-- Inside a statement the depth is at most one more than the number of tokens taken. -/
  taken : ∀ begun, m.control.begun? = some begun →
    m.state.stream.size ≤ begun ∧ m.depth ≤ begun - m.state.stream.size + 1
  advanced : m.Advanced
  returns : m.Returns settings

end Moment

end TaggedSql
