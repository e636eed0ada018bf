import TaggedSql.Proofs.Ledger.Statements
import TaggedSql.Session

/-!
# The account of whole statements

A statement hands over its root, and its tree takes all nodes with it. What a ledger says behind a
statement with only the root at hand is therefore what is known of the tree, and reading goes on with
an empty arena. Statements are read one after the other, in scripts and by the calls on a session.

* `Gives`: a rule that has no nodes at hand, before it or behind it, and what is known of its value;
* `gives_tree`: a tree is known as well as the state behind its statement;
* `gives_single`, `gives_script`: what is known of each tree is known of the trees that are read;
* `Gives.of_run`, `Gives.failed_run`: the result of a call on a session, and the state behind it.
-/

namespace TaggedSql.Ledger

open Rule Statement

variable {L : Ledger} {α β : Type} {x : Rule α} {f : α → Rule β} {V : α → Prop} {W : β → Prop}

/-- The rule keeps the ledger with no nodes at hand, and something is known of its value. -/
def Gives (L : Ledger) (x : Rule α) (V : α → Prop) : Prop :=
  ∀ s, L.holds s [] →
    match x s with
    | .ok a s' => V a ∧ L.holds s' []
    | .error _ s' => L.failed s'

/-! ### Sequences of rules -/

theorem Keeps.gives (h : L.Keeps [] x fun _ => []) : L.Gives x fun _ => True := by
  intro s hs
  have hresult := h s [] hs
  cases hrun : x s with
  | ok a s' =>
    rw [hrun] at hresult
    exact ⟨trivial, hresult⟩
  | error e s' =>
    rw [hrun] at hresult
    exact hresult

namespace Gives

theorem done {a : α} (h : V a) : L.Gives (pure a) V := fun _ hs => ⟨h, hs⟩

theorem unexpected {e : Expectation} : L.Gives (Rule.unexpected e : Rule α) V := fun _ hs => L.fail hs

theorem bind (h : L.Gives x V) (hf : ∀ a, V a → L.Gives (f a) W) : L.Gives (x >>= f) W := by
  intro s hs
  have hx := h s hs
  cases hrun : x s with
  | error e s' =>
    rw [hrun] at hx
    rw [bind_of_error hrun]
    exact hx
  | ok a s' =>
    rw [hrun] at hx
    rw [bind_of_ok hrun]
    exact hf a hx.1 s' hx.2

/-- A rule whose value says nothing. -/
theorem pass (h : L.Keeps [] x fun _ => []) (hf : ∀ a, L.Gives (f a) W) : L.Gives (x >>= f) W :=
  h.gives.bind fun a _ => hf a

theorem iterate {step : α → Rule (Option α)}
    (hstep : ∀ a, V a → L.Gives (step a) fun o => V (o.getD a)) {a : α} (ha : V a) :
    L.Gives (Rule.iterate step a) V := by
  intro s hs
  have hsome : ∀ a s b s', V a ∧ L.holds s [] → step a s = .ok (some b) s' →
      V b ∧ L.holds s' [] := by
    rintro a s b s' ⟨ha, hs⟩ hrun
    have hresult := hstep a ha s hs
    rwa [hrun] at hresult
  obtain ⟨c, s₁, ⟨hc, hs₁⟩, hlast⟩ := iterate_last hsome ⟨ha, hs⟩
  have hresult := hstep c hc s₁ hs₁
  rcases hlast with ⟨e, s', hrun, hend⟩ | ⟨s', hrun, hend⟩ | ⟨b, s', hrun, _, hend⟩
  all_goals
    rw [hrun] at hresult
    rw [hend]
    exact hresult

end Gives

/-! ### Statements and scripts -/

variable {settings : Settings} {source : String} {P : Tree → Prop}

/-- The tree takes the nodes of its statement, and none are left. -/
theorem gives_tree (hpolicy : settings.overflow = L.policy)
    (htake : ∀ s root, L.holds s [root] →
      P ⟨source, s.arena, root⟩ ∧ L.holds { s with arena := {} } []) :
    L.Gives (tree settings source) P := by
  intro s hs
  have hresult := keeps_statement (context_enter hpolicy settings.maxDepth) s [] hs
  rw [tree, context]
  cases hrun : statement ⟨settings.overflow, enter settings settings.maxDepth⟩ s with
  | error e s' =>
    rw [hrun] at hresult
    rw [bind_of_error hrun]
    exact hresult
  | ok root s' =>
    rw [hrun] at hresult
    rw [bind_of_ok hrun]
    exact htake s' root hresult

theorem gives_single (h : L.Gives (tree settings source) P) : L.Gives (single settings source) P := by
  refine .pass keeps_checkSpelling fun _ => ?_
  refine h.bind fun t ht => ?_
  refine .pass (keeps_eat _) fun _ => ?_
  refine .pass keeps_atEnd fun ends => ?_
  cases ends with
  | true => exact .done ht
  | false => exact Gives.bind (V := fun _ => True) .unexpected fun _ _ => .done ht

theorem gives_extendScript (h : L.Gives (tree settings source) P) {trees : List Tree}
    (htrees : ∀ t ∈ trees, P t) :
    L.Gives (extendScript settings source trees) fun o => ∀ t ∈ o.getD trees, P t := by
  refine .pass keeps_skipSemicolons fun _ => ?_
  refine .pass keeps_atEnd fun ends => ?_
  cases ends with
  | true => exact .done htrees
  | false =>
    refine h.bind fun next hnext => ?_
    have hall : ∀ t ∈ trees ++ [next], P t :=
      List.forall_mem_append.2 ⟨htrees, List.forall_mem_singleton.2 hnext⟩
    refine .pass keeps_atEnd fun ends => ?_
    cases ends with
    | true => exact .done hall
    | false => exact .pass (keeps_expect _) fun _ => .done hall

theorem gives_script (h : L.Gives (tree settings source) P) :
    L.Gives (script settings source) fun trees => ∀ t ∈ trees, P t := by
  refine .pass keeps_checkSpelling fun _ => ?_
  have hstep : ∀ trees : List Tree, (∀ t ∈ trees, P t) →
      L.Gives (extendScript settings source trees) fun o => ∀ t ∈ o.getD trees, P t :=
    fun trees htrees => gives_extendScript h htrees
  refine (Gives.iterate hstep (List.forall_mem_nil P)).bind fun trees htrees => ?_
  cases trees.isEmpty with
  | true => exact .unexpected
  | false => exact .done htrees

/-! ### Calls on a session -/

variable {s : Session}

/-- What is known of the result of a call. -/
theorem Gives.of_run (h : L.Gives x V) (hs : L.holds s.state []) {a : α}
    (hrun : (s.run x).1 = .ok a) : V a := by
  have hresult := h s.state hs
  rw [Session.run] at hrun
  cases hstate : x s.state with
  | ok b state =>
    rw [hstate] at hrun hresult
    cases hrun
    exact hresult.1
  | error e state =>
    rw [hstate] at hrun
    cases hrun

/-- What is known of the state behind a call, whether it fails or not. -/
theorem Gives.failed_run (h : L.Gives x V) (hs : L.holds s.state []) :
    L.failed (s.run x).2.state := by
  have hresult := h s.state hs
  rw [Session.run]
  cases hstate : x s.state with
  | ok a state =>
    rw [hstate] at hresult
    exact L.fail hresult.2
  | error e state =>
    rw [hstate] at hresult
    exact hresult

end TaggedSql.Ledger
