import TaggedSql.Proofs.Lockstep.Alone

/-!
# The limit on the depth

The limit on the depth is only a guard: where it lets a run pass, a greater limit changes nothing, and
every source has a threshold from which on the limit does not matter. The runs with the two limits are
in lockstep up to the place where the smaller limit is exceeded; with more levels than tokens no run
exceeds it.

* `Guards`: a limit that is only a guard;
* `depth_guards`: the limit on the depth is one, for statements and for scripts.
-/

namespace TaggedSql

/-- Whether a failure is due to the limit on the depth. -/
def Failure.isTooDeep : Failure → Bool
  | .tooDeep _ _ => true
  | _ => false

/-- A limit that is only a guard. -/
structure Guards {α : Type} (read : Nat → Except Failure α) : Prop where
  /-- What has been read is read with any greater limit. -/
  ok : ∀ limit limit' a, limit ≤ limit' → read limit = .ok a → read limit' = .ok a
  /-- A failure that is not due to the limit stays with any greater one. -/
  error : ∀ limit limit' e, limit ≤ limit' → e.isTooDeep = false → read limit = .error e →
    read limit' = .error e
  /-- Below a threshold the limit is exceeded, and from there on it does not matter. -/
  threshold : ∃ least, (∀ limit < least, ∃ t, read limit = .error (.tooDeep limit t)) ∧
    (∀ t, read least ≠ .error (.tooDeep least t)) ∧
    ∀ limit, least ≤ limit → read limit = read least

namespace Lockstep

open Statement

/-- Two runs on the same tokens, whatever they are. What is known of failures holds of all that are
not due to the limit. -/
def guarded (policy : OverflowPolicy) (excused fails : Failure → Prop)
    (hfails : ∀ e, e.isTooDeep = false → fails e) : Lockstep :=
  alone
    { policy
      holds := fun _ => True
      fails
      advance := fun _ _ _ => trivial
      problem := fun _ _ _ => hfails _ rfl
      unexpected := fun _ _ => hfails _ rfl
      range := fun _ _ _ => hfails _ rfl } excused

/-- A run beside one with a greater limit, which need not follow when the limit is exceeded. -/
def loosened (policy : OverflowPolicy) : Lockstep :=
  guarded policy (·.isTooDeep = true) (·.isTooDeep = false) fun _ => id

/-- A run that does not exceed its limit. -/
def roomy (policy : OverflowPolicy) : Lockstep :=
  guarded policy (fun _ => False) (·.isTooDeep = false) fun _ => id

/-- A run that says which limit it exceeds. -/
def limited (policy : OverflowPolicy) (limit : Nat) : Lockstep :=
  guarded policy (fun _ => False) (fun e => e.isTooDeep = true → ∃ t, e = .tooDeep limit t)
    fun _ h h' => absurd (h.symm.trans h') Bool.false_ne_true

variable {policy : OverflowPolicy} {limit limit' n : Nat}

/-- The tokens are the same whatever the limits are. -/
theorem outcome_guarded (source : String) {excused fails : Failure → Prop}
    {hfails : ∀ e, e.isTooDeep = false → fails e}
    (h : (guarded policy excused fails hfails).Contexts (context ⟨limit, policy⟩)
      (context ⟨limit', policy⟩) n) (hn : (Stream.ofSource policy source).size < n) :
    (guarded policy excused fails hfails).Outcome Eq (parse ⟨limit, policy⟩ source)
        (parse ⟨limit', policy⟩ source) ∧
      (guarded policy excused fails hfails).Outcome Eq (parseScript ⟨limit, policy⟩ source)
        (parseScript ⟨limit', policy⟩ source) := by
  have hmeet : (guarded policy excused fails hfails).Meets (Stream.ofSource policy source)
      (Stream.ofSource policy source) :=
    Stream.Invariant.meet_self _ _ (fun _ => trivial) fun _ _ => hfails _ rfl
  constructor
  · exact (outcome_parse whole_alone h hmeet hn).imp fun _ _ => Trees.eq
  · exact (outcome_parseScript whole_alone h hmeet hn).imp fun _ _ => Trees.all_eq

theorem contexts_loosened (policy : OverflowPolicy) (h : limit ≤ limit') (n : Nat) :
    (loosened policy).Contexts (context ⟨limit, policy⟩) (context ⟨limit', policy⟩) n := by
  have hexcused : ∀ entry n, (loosened policy).Follows n (fun _ => true)
      (enter ⟨limit, policy⟩ 0 entry) (enter ⟨limit', policy⟩ (limit' - limit) entry) Eq :=
    fun entry n s t _ _ _ => .excused rfl
  have hcontexts := contexts_enter rfl rfl hexcused limit n
  rw [Nat.sub_add_cancel h] at hcontexts
  exact hcontexts

theorem contexts_limited (policy : OverflowPolicy) (limit n : Nat) :
    (limited policy limit).Contexts (context ⟨limit, policy⟩) (context ⟨limit, policy⟩) n := by
  refine contexts_context _ rfl rfl ?_ n
  rintro s _ ⟨rfl, _⟩
  exact .inr ⟨rfl, fun _ => ⟨_, rfl⟩⟩

end Lockstep

open Lockstep

/-- A limit is only a guard if greater ones are followed, some limit is not exceeded, and a run says
which limit it exceeds. -/
theorem guards_of_outcomes {α : Type} {read : Nat → Except Failure α} {policy : OverflowPolicy}
    (hloosened : ∀ limit limit', limit ≤ limit' →
      (loosened policy).Outcome Eq (read limit) (read limit'))
    (hroomy : ∃ limit, (roomy policy).Outcome Eq (read limit) (read limit))
    (hlimited : ∀ limit, (limited policy limit).Outcome Eq (read limit) (read limit)) :
    Guards read := by
  have hok : ∀ limit limit' a, limit ≤ limit' → read limit = .ok a → read limit' = .ok a := by
    intro limit limit' a hle hread
    have houtcome := hloosened limit limit' hle
    rw [hread] at houtcome
    generalize read limit' = r at houtcome ⊢
    cases houtcome with
    | ok h => rw [h]
  have herror : ∀ limit limit' e, limit ≤ limit' → e.isTooDeep = false → read limit = .error e →
      read limit' = .error e := by
    intro limit limit' e hle he hread
    have houtcome := hloosened limit limit' hle
    rw [hread] at houtcome
    generalize read limit' = r at houtcome ⊢
    cases houtcome with
    | excused h => exact absurd (he.symm.trans h) Bool.false_ne_true
    | failure h => rw [h.1]
  refine ⟨hok, herror, ?_⟩
  -- The threshold is the least limit that is not exceeded.
  have hexists : ∃ limit, ∀ t, read limit ≠ .error (.tooDeep limit t) := by
    obtain ⟨limit, houtcome⟩ := hroomy
    refine ⟨limit, fun t hread => ?_⟩
    rw [hread] at houtcome
    cases houtcome with
    | excused h => exact h
    | failure h => cases h.2
  classical
  refine ⟨Nat.find hexists, fun limit hlimit => ?_, Nat.find_spec hexists, fun limit hle => ?_⟩
  · by_contra hnone
    exact Nat.find_min hexists hlimit fun t hread => hnone ⟨t, hread⟩
  · cases hread : read (Nat.find hexists) with
    | ok a => exact hok _ _ a hle hread
    | error e =>
      refine herror _ _ e hle ?_ hread
      rw [Bool.eq_false_iff]
      intro hdeep
      have houtcome := hlimited (Nat.find hexists)
      rw [hread] at houtcome
      cases houtcome with
      | excused h => exact h
      | failure h =>
        obtain ⟨t, rfl⟩ := h.2 hdeep
        exact Nat.find_spec hexists t hread

/-- The limit on the depth is only a guard, for single statements and for scripts. -/
theorem depth_guards (policy : OverflowPolicy) (source : String) :
    Guards (fun limit => parse ⟨limit, policy⟩ source) ∧
      Guards (fun limit => parseScript ⟨limit, policy⟩ source) := by
  let size := (Stream.ofSource policy source).size
  have hloosened : ∀ limit limit', limit ≤ limit' → _ := fun limit limit' hle =>
    outcome_guarded source (contexts_loosened policy hle (size + 1)) (Nat.lt_succ_self size)
  have hroomy := outcome_guarded source
    (contexts_roomy (L := roomy policy) ⟨size + 1, policy⟩ ⟨size + 1, policy⟩ rfl rfl (size + 1))
    (Nat.lt_succ_self size)
  have hlimited : ∀ limit, _ := fun limit =>
    outcome_guarded source (contexts_limited policy limit (size + 1)) (Nat.lt_succ_self size)
  constructor
  · exact guards_of_outcomes (fun limit limit' hle => (hloosened limit limit' hle).1)
      ⟨size + 1, hroomy.1⟩ fun limit => (hlimited limit).1
  · exact guards_of_outcomes (fun limit limit' hle => (hloosened limit limit' hle).2)
      ⟨size + 1, hroomy.2⟩ fun limit => (hlimited limit).2

end TaggedSql
