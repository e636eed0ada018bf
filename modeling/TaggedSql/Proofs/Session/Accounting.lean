import TaggedSql.Proofs.Plan.Accounting
import TaggedSql.Proofs.Session.Depth

/-!
# Reading ends, and counts the depth exactly

A source is read in finitely many steps, whatever it is and however great the limit on the depth is.
The depth is at every moment the number of rules that have been entered and not left. It stays between
zero and the limit, and within one more than the tokens that the statement has taken, so that a limit
above the number of tokens is never exceeded.

* `Ends`: a source is read to a result, one accounted step after the other;
* `parse_ends`: single statements and scripts are.
-/

namespace TaggedSql

open Statement Lockstep

/-- Carrying out a plan on a source ends with a result. The depth is counted exactly on the way, and
the limit is not exceeded if it is greater than the number of tokens. -/
structure Ends {γ : Type} (settings : Settings) (source : String) (plan : Plan .source γ)
    (result : Except Failure γ) : Prop where
  halts : Halts settings (Machine.start plan (Session.start settings source).state) result
  roomy : (Stream.ofSource settings.overflow source).size < settings.maxDepth →
    ∀ e, result = .error e → e.isTooDeep = false

/-- A run that does not exceed its limit fails in other ways only. -/
theorem isTooDeep_of_roomy {γ : Type} {policy : OverflowPolicy} {result : Except Failure γ}
    (h : (roomy policy).Outcome Eq result result) (e : Failure) (hresult : result = .error e) :
    e.isTooDeep = false := by
  rw [hresult] at h
  cases h with
  | excused h => exact h.elim
  | failure h => exact h.2

/-- A single statement and a script are read in finitely many steps, with the depth counted exactly. -/
theorem parse_ends (settings : Settings) (source : String) :
    Ends settings source (singlePlan settings source).plan (parse settings source) ∧
      Ends settings source (scriptPlan settings source).plan (parseScript settings source) := by
  have hroomy : (Stream.ofSource settings.overflow source).size < settings.maxDepth → _ :=
    outcome_guarded source
      (contexts_roomy (L := roomy settings.overflow) settings settings rfl rfl settings.maxDepth)
  constructor
  · exact ⟨halts_start _ _, fun hsize => isTooDeep_of_roomy (hroomy hsize).1⟩
  · exact ⟨halts_start _ _, fun hsize => isTooDeep_of_roomy (hroomy hsize).2⟩

end TaggedSql
