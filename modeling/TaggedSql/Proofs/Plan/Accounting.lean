import TaggedSql.Proofs.Plan.Machine

/-!
# What the machine does

The machine carries a plan out as the plan runs: it gets, in finitely many steps, to where the value of
the plan is handed on, or its failure. On the way it is accounted for at every moment. The proof goes
through the plan, through the rounds of a repetition, which take tokens, and from level to level, of
which only so many fit below the limit.

* `Reaches`: the machine gets from one moment to another;
* `Hands`: it hands on what a rule gives, the value or the failure;
* `Serves`: it hands on what the rules give that a plan may enter;
* `HandsOn.loop`: it hands on what a repetition gives if it does so for the steps;
* `hands_run`: it then hands on what the plan gives;
* `serves_statement`, `serves_source`: it does so on every level, and between statements;
* `reaches_halt`, `halts_start`: a whole rule ends at depth zero, where it has begun, with its result.
-/

namespace TaggedSql

open Rule Statement Machine

variable {γ : Type} {settings : Settings} {l : Layer} {α β : Type} {m m' : Moment γ}

/-- The machine gets from one moment to another, and is accounted for at each moment before. -/
def Reaches (settings : Settings) (m m' : Moment γ) : Prop :=
  ∃ n, (step settings)^[n] m = m' ∧ ∀ i < n, ((step settings)^[i] m).Accounted settings

theorem Reaches.refl (m : Moment γ) : Reaches settings m m :=
  ⟨0, rfl, fun _ hi => absurd hi (Nat.not_lt_zero _)⟩

theorem Reaches.head (h : m.Accounted settings) (hrest : Reaches settings (step settings m) m') :
    Reaches settings m m' := by
  obtain ⟨n, hn, hall⟩ := hrest
  refine ⟨n + 1, hn, fun i hi => ?_⟩
  cases i with
  | zero => exact h
  | succ i => exact hall i (Nat.lt_of_succ_lt_succ hi)

/-- What holds in the end, and holds before an accounted step if it holds behind it, holds in the
beginning. -/
theorem Reaches.back {P : Moment γ → Prop} (h : Reaches settings m m')
    (hstep : ∀ m : Moment γ, m.Accounted settings → P (step settings m) → P m) (hlast : P m') :
    P m := by
  obtain ⟨n, hn, hall⟩ := h
  induction n generalizing m with
  | zero =>
    subst hn
    exact hlast
  | succ n ih =>
    have hfirst : m.Accounted settings := hall 0 (Nat.succ_pos n)
    exact hstep m hfirst (ih hn fun i hi => hall (i + 1) (Nat.succ_lt_succ hi))

theorem Reaches.trans {m'' : Moment γ} (h : Reaches settings m m') (h' : Reaches settings m' m'') :
    Reaches settings m m'' :=
  h.back (P := fun m => Reaches settings m m'') (fun _ => .head) h'

/-- The machine hands on what a rule gives. -/
def Hands (settings : Settings) (depth : Nat) (next : α → Control γ) (stop : Failure → Control γ)
    (m : Moment γ) : EStateM.Result Failure ParseState α → Prop
  | .ok a s => Reaches settings m ⟨next a, s, depth⟩
  | .error e s => Reaches settings m ⟨stop e, s, depth⟩

namespace Hands

variable {depth : Nat} {next : α → Control γ} {stop : Failure → Control γ}

theorem head {r : EStateM.Result Failure ParseState α} (h : m.Accounted settings)
    (hrest : Hands settings depth next stop (step settings m) r) :
    Hands settings depth next stop m r := by
  cases r with
  | ok a s => exact Reaches.head h hrest
  | error e s => exact Reaches.head h hrest

theorem of_reaches {r : EStateM.Result Failure ParseState α} (h : Reaches settings m m')
    (hrest : Hands settings depth next stop m' r) : Hands settings depth next stop m r :=
  h.back (P := fun m => Hands settings depth next stop m r) (fun _ => head) hrest

/-- One rule after another: what the first gives is handed to the second. -/
theorem bind {x : Rule α} {f : α → Rule β} {s : ParseState} {next' : β → Control γ}
    (h : Hands settings depth next stop m (x s))
    (hf : ∀ a s', x s = .ok a s' →
      Hands settings depth next' stop ⟨next a, s', depth⟩ (f a s')) :
    Hands settings depth next' stop m ((x >>= f) s) := by
  cases hrun : x s with
  | error e s' =>
    rw [hrun] at h
    rw [bind_of_error hrun]
    exact h
  | ok a s' =>
    rw [hrun] at h
    rw [bind_of_ok hrun]
    exact of_reaches h (hf a s' hrun)

end Hands

/-! ### The bounds of the depth -/

/-- The rules entered are within the limit, and within one more than the tokens taken. -/
structure Fits (settings : Settings) (k : Stack γ l α) (s : ParseState) : Prop where
  limit : k.levels ≤ settings.maxDepth
  taken : ∀ begun, k.begun? = some begun →
    s.stream.size ≤ begun ∧ k.levels + s.stream.size ≤ begun + 1

/-- There are tokens enough for one more rule. -/
def Stack.Admits (k : Stack γ l α) (entry : Entry) (s : ParseState) : Prop :=
  ∀ begun, k.begun? = some begun → k.levels + entry.load s ≤ begun

theorem Control.levels_pos {control : Control γ} (h : control.leaves = true) :
    0 < control.levels := by
  cases control with
  | run plan k =>
    cases plan with
    | done a => exact Stack.levels_pos h
    | _ => cases h
  | unwind e k => exact Stack.levels_pos h
  | halt result => cases h

namespace Fits

variable {k : Stack γ l α} {s s' : ParseState} {depth : Nat}

theorem mono (h : Fits settings k s) (hsize : s'.stream.size ≤ s.stream.size) :
    Fits settings k s' := by
  refine ⟨h.limit, fun begun hbegun => ?_⟩
  obtain ⟨hle, htaken⟩ := h.taken begun hbegun
  exact ⟨hsize.trans hle, (Nat.add_le_add_left hsize _).trans htaken⟩

theorem round (h : Fits settings k s) (begun : Nat) (step : β → Plan l (Option β)) (b : β)
    (next : β → Plan l α) : Fits settings (.round begun step b next k) s := ⟨h.limit, h.taken⟩

/-- One more rule fits if the limit and the tokens admit it. -/
theorem level {k : Stack γ .statement α} {next : NodeId → Plan .statement α} {entry : Entry}
    (hlimit : k.levels < settings.maxDepth) (hadmits : k.Admits entry s) :
    Fits settings (.level next k) s := by
  refine ⟨hlimit, fun begun hbegun => ?_⟩
  have hload := hadmits begun hbegun
  have hsize := entry.size_le_load s
  constructor
  · omega
  · show k.levels + 1 + s.stream.size ≤ begun + 1
    omega

theorem root (next : NodeId → Plan .source α) (k : Stack γ .source α) :
    Fits settings (.root s.stream.size next k) s := by
  refine ⟨Nat.zero_le _, fun begun hbegun => ?_⟩
  cases hbegun
  exact ⟨Nat.le_refl _, by rw [Stack.levels]; omega⟩

/-- What fits is accounted for, as long as repetitions take tokens and rules are left again. -/
theorem accounted (h : Fits settings k s) (hk : k.levels = depth) {control : Control γ}
    (hlevels : control.levels = k.levels) (hbegun : control.begun? = k.begun?)
    (hadvanced : Moment.Advanced ⟨control, s, depth⟩)
    (hreturns : Moment.Returns settings ⟨control, s, depth⟩) :
    Moment.Accounted settings ⟨control, s, depth⟩ where
  depth_eq := (hlevels.trans hk).symm
  depth_le := hk ▸ h.limit
  depth_pos hleaves := by
    have hpos := Control.levels_pos hleaves
    rwa [hlevels, hk] at hpos
  taken begun hcontrol := by
    obtain ⟨hle, htaken⟩ := h.taken begun (hbegun ▸ hcontrol)
    rw [hk] at htaken
    exact ⟨hle, by show depth ≤ begun - s.stream.size + 1; omega⟩
  advanced := hadvanced
  returns := hreturns

theorem accounted_run (h : Fits settings k s) (hk : k.levels = depth) {p : Plan l α}
    (hentered : p.entered? = none) (hadvanced : Moment.Advanced ⟨.run p k, s, depth⟩) :
    Moment.Accounted settings ⟨.run p k, s, depth⟩ :=
  h.accounted hk rfl rfl hadvanced fun _ h => absurd (hentered.symm.trans h) nofun

theorem accounted_unwind (h : Fits settings k s) (hk : k.levels = depth) (e : Failure) :
    Moment.Accounted settings ⟨.unwind e k, s, depth⟩ := h.accounted hk rfl rfl trivial trivial

end Fits

/-! ### Plans -/

/-- The machine hands on what the rules give that a plan may enter. -/
structure Serves (γ : Type) (settings : Settings) (l : Layer) (depth : Nat) : Prop where
  enter : ∀ {α : Type} (entry : Entry) (next : NodeId → Plan .statement α)
    (k : Stack γ .statement α) (s : ParseState), l = .statement → k.levels = depth →
    Fits settings k s → k.Admits entry s →
    Hands settings depth (fun id => .run (next id) k) (fun e => .unwind e k)
      ⟨.run (.enter entry next) k, s, depth⟩ (enter settings (settings.maxDepth - depth) entry s)
  statement : ∀ {α : Type} (next : NodeId → Plan .source α) (k : Stack γ .source α)
    (s : ParseState), l = .source →
    Hands settings depth (fun id => .run (next id) k) (fun e => .unwind e k)
      ⟨.run (.statement next) k, s, depth⟩
      (statement (roomContext settings (settings.maxDepth - depth)) s)

variable {depth : Nat}

/-- The machine hands on what a plan gives, wherever the plan fits. -/
def HandsOn (γ : Type) (settings : Settings) (depth : Nat) (p : Plan l α) : Prop :=
  ∀ (k : Stack γ l α) (s : ParseState), k.levels = depth → Fits settings k s →
    p.Advances (roomContext settings (settings.maxDepth - depth)) →
    (∀ entry s', p.Calls (roomContext settings (settings.maxDepth - depth)) s entry s' →
      k.Admits entry s') →
    Hands settings depth (fun a => .run (.done a) k) (fun e => .unwind e k) ⟨.run p k, s, depth⟩
      (p.run (roomContext settings (settings.maxDepth - depth)) s)

/-- The machine hands on what a repetition gives, if it does so for its steps and for what follows. -/
theorem HandsOn.loop {step : β → Plan l (Option β)} {next : β → Plan l α}
    (hstep : ∀ b, HandsOn γ settings depth (step b)) (hnext : ∀ b, HandsOn γ settings depth (next b))
    (b : β) : HandsOn γ settings depth (.loop step b next) := by
  intro k s hk hfits hp hcalls
  have hc := steady_roomContext settings (settings.maxDepth - depth)
  refine .head (hfits.accounted_run hk rfl trivial) ?_
  -- The rounds of the repetition, by induction on the tokens ahead.
  induction hsize : s.stream.size using Nat.strongRecOn generalizing b s with
  | ind size ih =>
    have hround := hstep b (.round s.stream.size step b next k) s hk
      (hfits.round s.stream.size step b next) (hp.2.1 b)
      fun entry s' hcall => hcalls entry s' (.round hcall)
    have hle := Plan.size_le hc (hp.2.1 b) s
    cases hrun : (step b).run (roomContext settings (settings.maxDepth - depth)) s with
    | error e s' =>
      rw [hrun] at hround
      rw [after_of_error hrun] at hle
      rw [Plan.run, bind_of_error (iterate_of_error hrun)]
      have hleaves := ((hfits.mono hle).round s.stream.size step b next).accounted_unwind hk e
      exact hround.trans (.head hleaves (.refl _))
    | ok o s' =>
      rw [hrun] at hround
      rw [after_of_ok hrun] at hle
      have hfits' := hfits.mono hle
      cases o with
      | none =>
        rw [Plan.run, bind_of_ok (iterate_of_none hrun)]
        have hleaves := (hfits'.round s.stream.size step b next).accounted_run (p := .done none) hk
          rfl trivial
        refine .of_reaches hround (.head hleaves ?_)
        exact hnext b k s' hk hfits' (hp.2.2 b) fun entry s'' hcall =>
          hcalls entry s'' (.behind hrun hcall)
      | some b' =>
        have hless := hp.1 b s b' s' hrun
        rw [Plan.run, bind_iterate_of_some _ hrun hless]
        have hgoesOn := (hfits'.round s.stream.size step b next).accounted_run (p := .done (some b'))
          hk rfl hless
        refine .of_reaches hround (.head hgoesOn ?_)
        exact ih _ (hsize ▸ hless) b' s' hfits' hp
          (fun entry s'' hcall => hcalls entry s'' (.again hrun hcall)) rfl

/-- The machine hands on what a plan gives, if it does so for the rules that the plan enters. -/
theorem hands_run (h : Serves γ settings l depth) {p : Plan l α} {k : Stack γ l α} {s : ParseState}
    (hk : k.levels = depth) (hfits : Fits settings k s)
    (hp : p.Advances (roomContext settings (settings.maxDepth - depth)))
    (hcalls : ∀ entry s', p.Calls (roomContext settings (settings.maxDepth - depth)) s entry s' →
      k.Admits entry s') :
    Hands settings depth (fun a => .run (.done a) k) (fun e => .unwind e k) ⟨.run p k, s, depth⟩
      (p.run (roomContext settings (settings.maxDepth - depth)) s) := by
  have hc := steady_roomContext settings (settings.maxDepth - depth)
  induction p generalizing s with
  | done a => exact Reaches.refl _
  | fail failure located => exact .head (hfits.accounted_run hk rfl trivial) (Reaches.refl _)
  | look n next ih =>
    exact .head (hfits.accounted_run hk rfl trivial)
      (ih _ h hk hfits (hp _) fun entry s' hcall => hcalls entry s' (.look hcall))
  | policy next ih =>
    exact .head (hfits.accounted_run hk rfl trivial)
      (ih _ h hk hfits (hp _) fun entry s' hcall => hcalls entry s' (.policy hcall))
  | take next ih =>
    refine .head (hfits.accounted_run hk rfl trivial)
      (ih h hk (hfits.mono ?_) hp fun entry s' hcall => hcalls entry s' (.take hcall))
    exact (closed_size_le (l := .statement) hc fun h => nomatch h).take s
  | push node next ih =>
    exact .head (hfits.accounted_run hk rfl trivial)
      (ih _ h hk (hfits.mono (Nat.le_refl _)) (hp _) fun entry s' hcall =>
        hcalls entry s' (.push hcall))
  | pushList items next ih =>
    exact .head (hfits.accounted_run hk rfl trivial)
      (ih _ h hk (hfits.mono (Nat.le_refl _)) (hp _) fun entry s' hcall =>
        hcalls entry s' (.pushList hcall))
  | harvest next ih =>
    exact .head (hfits.accounted_run hk rfl trivial)
      (ih _ h hk (hfits.mono (Nat.le_refl _)) (hp _) fun entry s' hcall =>
        hcalls entry s' (.harvest hcall))
  | enter entry next ih =>
    refine .bind (h.enter entry next k s rfl hk hfits (hcalls _ _ .here)) fun id s' hrun => ?_
    have hsize := hc.size_le entry s
    rw [after_of_ok hrun] at hsize
    exact ih id h hk (hfits.mono hsize) (hp id) fun entry' s'' hcall =>
      hcalls entry' s'' (.enter hrun hcall)
  | statement next ih =>
    refine .bind (h.statement next k s rfl) fun id s' hrun => ?_
    have hsize := statementPlan.size_le hc s
    rw [after_of_ok hrun] at hsize
    exact ih id h hk (hfits.mono hsize) (hp id) fun entry s'' hcall =>
      hcalls entry s'' (.statement hrun hcall)
  | loop step b next ihstep ih =>
    exact HandsOn.loop (fun b k s hk hfits hp hcalls => ihstep b h hk hfits hp hcalls)
      (fun b k s hk hfits hp hcalls => ih b h hk hfits hp hcalls) b k s hk hfits hp hcalls

/-! ### Levels -/

/-- A rule that is about to be entered and leads to where it has been left is accounted for. -/
theorem Fits.accounted_enter {k : Stack γ l α} {s : ParseState} (h : Fits settings k s)
    (hk : k.levels = depth) {p : Plan l α} {next : NodeId → Plan l α}
    (hentered : p.entered? = some next) (hadvanced : Moment.Advanced ⟨.run p k, s, depth⟩)
    {r : EStateM.Result Failure ParseState NodeId}
    (hrest : Hands settings depth (fun id => .run (next id) k) (fun e => .unwind e k)
      (step settings ⟨.run p k, s, depth⟩) r) :
    Moment.Accounted settings ⟨.run p k, s, depth⟩ := by
  refine h.accounted hk rfl rfl hadvanced fun next' h' => ?_
  cases hentered.symm.trans h'
  cases r with
  | ok id s' =>
    obtain ⟨n, hn, _⟩ := hrest
    exact ⟨n + 1, s', .inl ⟨id, hn⟩⟩
  | error e s' =>
    obtain ⟨n, hn, _⟩ := hrest
    exact ⟨n + 1, s', .inr ⟨e, hn⟩⟩

/-- What a rule gives is handed to the plan that has entered it. -/
theorem Hands.left {k' : Stack γ .statement NodeId} {k : Stack γ l α} {next : NodeId → Plan l α}
    {depth' : Nat} {x : Rule NodeId} {s : ParseState}
    (h : Hands settings depth' (fun id => .run (.done id) k') (fun e => .unwind e k') m (x s))
    (hk' : k'.levels = depth') (hfits : Fits settings k' (after x s))
    (hadvanced : ∀ id s, k'.Advanced id s)
    (hresume : ∀ id s, step settings ⟨.run (.done id) k', s, depth'⟩ = ⟨.run (next id) k, s, depth⟩)
    (hunwind : ∀ e s, step settings ⟨.unwind e k', s, depth'⟩ = ⟨.unwind e k, s, depth⟩) :
    Hands settings depth (fun id => .run (next id) k) (fun e => .unwind e k) m (x s) := by
  cases hrun : x s with
  | ok id s' =>
    rw [hrun] at h
    rw [after_of_ok hrun] at hfits
    have haccounted := hfits.accounted_run (p := .done id) hk' rfl (hadvanced id s')
    refine Reaches.trans h (.head haccounted ?_)
    rw [hresume]
    exact .refl _
  | error e s' =>
    rw [hrun] at h
    rw [after_of_error hrun] at hfits
    refine Reaches.trans h (.head (hfits.accounted_unwind hk' e) ?_)
    rw [hunwind]
    exact .refl _

/-- Inside a statement the machine hands on what the rules one level deeper give. -/
theorem serves_statement (γ : Type) (settings : Settings) (room : Nat) :
    ∀ depth, depth + room = settings.maxDepth → Serves γ settings .statement depth := by
  induction room with
  | zero =>
    intro depth hdepth
    refine ⟨fun entry next k s _ hk hfits _ => ?_, fun _ _ _ h => nomatch h⟩
    have hfull : ¬depth < settings.maxDepth := by omega
    have hroom : settings.maxDepth - depth = 0 := by omega
    have hstep : step settings ⟨.run (.enter entry next) k, s, depth⟩ =
        ⟨.unwind (.tooDeep settings.maxDepth s.stream.current) k, s, depth⟩ := if_neg hfull
    have hrest : Hands settings depth (fun id => .run (next id) k) (fun e => .unwind e k)
        (step settings ⟨.run (.enter entry next) k, s, depth⟩) (enter settings 0 entry s) := by
      rw [hstep]
      exact Reaches.refl _
    rw [hroom]
    exact .head (hfits.accounted_enter hk rfl trivial hrest) hrest
  | succ room ih =>
    intro depth hdepth
    refine ⟨fun entry next k s _ hk hfits hadmits => ?_, fun _ _ _ h => nomatch h⟩
    have hfree : depth < settings.maxDepth := by omega
    have hroom : settings.maxDepth - depth = settings.maxDepth - (depth + 1) + 1 := by omega
    have hc := steady_roomContext settings (settings.maxDepth - (depth + 1))
    have hlevels : (Stack.level next k).levels = depth + 1 := congrArg (· + 1) hk
    have hlevel : Fits settings (.level next k) s := .level (hk ▸ hfree) hadmits
    -- The rule itself, with one rule more on the stack and less ahead of the rules that it enters.
    have hbody := hands_run (ih (depth + 1) (by omega)) hlevels hlevel
      ((bodyPlan entry).advances _ hc) (s := s) fun entry' s' hcall begun hbegun => by
        have hload := load_lt_of_calls hc hcall
        have hbound := hadmits begun hbegun
        show k.levels + 1 + entry'.load s' ≤ begun
        omega
    rw [(bodyPlan entry).run_eq _ hc] at hbody
    have hstep : step settings ⟨.run (.enter entry next) k, s, depth⟩ =
        ⟨.run (bodyPlan entry).plan (.level next k), s, depth + 1⟩ := if_pos hfree
    have hrest : Hands settings depth (fun id => .run (next id) k) (fun e => .unwind e k)
        (step settings ⟨.run (.enter entry next) k, s, depth⟩)
        (enter settings (settings.maxDepth - (depth + 1) + 1) entry s) := by
      rw [hstep]
      exact hbody.left hlevels (hlevel.mono ((bodyPlan entry).size_le hc s)) (fun _ _ => trivial)
        (fun _ _ => rfl) fun _ _ => rfl
    rw [hroom]
    exact .head (hfits.accounted_enter hk rfl trivial hrest) hrest

/-- Between statements no rule has been entered, so everything fits. -/
theorem Fits.source (k : Stack γ .source α) (s : ParseState) : Fits settings k s where
  limit := k.levels_eq_zero rfl ▸ Nat.zero_le _
  taken _ hbegun := nomatch (k.begun?_eq_none rfl).symm.trans hbegun

/-- Between statements the machine hands on what statements give. -/
theorem serves_source (γ : Type) (settings : Settings) : Serves γ settings .source 0 := by
  refine ⟨fun _ _ _ _ h => (nomatch h), fun next k s _ => ?_⟩
  have hc := steady_roomContext settings (settings.maxDepth - 0)
  have hk : k.levels = 0 := k.levels_eq_zero rfl
  have hroot : Fits settings (.root s.stream.size next k) s := .root next k
  have hbody := hands_run (serves_statement γ settings settings.maxDepth 0 (Nat.zero_add _)) rfl hroot
    (statementPlan.advances _ hc) (s := s) fun entry s' hcall begun hbegun => by
      cases hbegun
      rw [Stack.levels, Nat.zero_add]
      exact load_le_of_calls hc hcall
  rw [statementPlan.run_eq _ hc] at hbody
  have hrest : Hands settings 0 (fun id => .run (next id) k) (fun e => .unwind e k)
      (step settings ⟨.run (.statement next) k, s, 0⟩)
      (statement (roomContext settings (settings.maxDepth - 0)) s) :=
    hbody.left rfl (hroot.mono (statementPlan.size_le hc s)) (fun _ _ => trivial) (fun _ _ => rfl)
      fun _ _ => rfl
  exact .head ((Fits.source k s).accounted_enter hk rfl trivial hrest) hrest

/-! ### Whole runs -/

/-- The machine ends with a result, and is accounted for at every moment. -/
structure Halts (settings : Settings) (m : Moment γ) (result : Except Failure γ) : Prop where
  halts : ∃ n, ((step settings)^[n] m).control = .halt result
  accounted : ∀ n, ((step settings)^[n] m).Accounted settings

theorem Halts.head {result : Except Failure γ} (h : m.Accounted settings)
    (hrest : Halts settings (step settings m) result) : Halts settings m result where
  halts := by
    obtain ⟨n, hn⟩ := hrest.halts
    exact ⟨n + 1, hn⟩
  accounted n := by
    cases n with
    | zero => exact h
    | succ n => exact hrest.accounted n

theorem Halts.of_reaches {result : Except Failure γ} (h : Reaches settings m m')
    (hrest : Halts settings m' result) : Halts settings m result :=
  h.back (P := fun m => Halts settings m result) (fun _ => .head) hrest

/-- A machine that has halted does nothing more. -/
theorem Halts.halt (result : Except Failure γ) (s : ParseState) :
    Halts settings ⟨.halt result, s, 0⟩ result := by
  have hfixed : ∀ n, (step settings)^[n] ⟨.halt result, s, 0⟩ = ⟨.halt result, s, 0⟩ :=
    Function.iterate_fixed rfl
  refine ⟨⟨0, rfl⟩, fun n => ?_⟩
  rw [hfixed n]
  exact ⟨rfl, Nat.zero_le _, fun h => (nomatch h), fun _ h => (nomatch h), trivial, trivial⟩

/-- Started on a rule with a plan, the machine gets to where the rule leaves off. There it halts with
what the rule gives, at depth zero as in the beginning. -/
theorem reaches_halt {x : Rule γ} (h : Outer settings x) (session : Session) :
    Reaches settings (start h.plan session.state)
      ⟨.halt (session.run x).1, (session.run x).2.state, 0⟩ := by
  have hrun := hands_run (serves_source γ settings) (k := .done) rfl (.source .done session.state)
    (h.advances (context settings) rfl) fun _ _ _ _ hbegun => nomatch hbegun
  have hplan : h.plan.run (roomContext settings (settings.maxDepth - 0)) = x := h.run_eq _ rfl
  rw [hplan] at hrun
  have hdone : ∀ s a, Moment.Accounted settings (γ := γ) ⟨.run (.done a) .done, s, 0⟩ :=
    fun s a => (Fits.source .done s).accounted_run rfl rfl trivial
  have hfailed : ∀ s e, Moment.Accounted settings (γ := γ) ⟨.unwind e .done, s, 0⟩ :=
    fun s e => (Fits.source .done s).accounted_unwind rfl e
  rw [Session.run]
  generalize x session.state = r at hrun ⊢
  cases r with
  | ok a s => exact Reaches.trans hrun (.head (hdone s a) (.refl _))
  | error e s => exact Reaches.trans hrun (.head (hfailed s e) (.refl _))

/-- Started on a rule with a plan, the machine halts with what the rule gives. -/
theorem halts_start {x : Rule γ} (h : Outer settings x) (session : Session) :
    Halts settings (start h.plan session.state) (session.run x).1 :=
  .of_reaches (reaches_halt h session) (.halt _ _)

end TaggedSql
