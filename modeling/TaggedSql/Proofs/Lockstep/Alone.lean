import TaggedSql.Proofs.Lockstep.Whole

/-!
# One run beside itself

A run beside itself, or beside one with other limits on the depth, reads the same tokens at every
step. What holds of the tokens ahead at the beginning, and still holds when one more has been taken,
then holds wherever the run fails.

* `Stream.Invariant`: what holds of the tokens ahead, and what this says of failures;
* `Lockstep.alone`: the lockstep of runs on the same tokens.
-/

namespace TaggedSql

/-- What holds of the tokens ahead at every step of a run, and of the failures of the run. -/
structure Stream.Invariant where
  policy : OverflowPolicy
  holds : Stream → Prop
  fails : Failure → Prop
  advance : ∀ {s}, holds s → s.current.kind ≠ .endOfInput →
    (∀ p, s.advance.current.kind ≠ .problem p) → holds s.advance
  problem : ∀ {s p}, holds s → s.current.kind ≠ .endOfInput →
    s.advance.current.kind = .problem p → fails (.lexical p s.advance.current)
  unexpected : ∀ {s} (e : Expectation), holds s → fails (.unexpected e s.current)
  range : ∀ {s}, policy = .reject → holds s → s.current.kind = .leastMagnitude →
    fails (.lexical (.integerRange s.current.text.toList) s.current)

theorem Node.Matches.eq {a b : Node} (h : Node.Matches Eq a b) : a = b := by
  cases h with
  | tag t => rfl
  | integer n => rfl
  | float x => rfl
  | name h => rw [h]
  | string h => rw [h]
  | blob h => rw [h]

namespace Stream.Invariant

variable (I : Stream.Invariant) (excused : Failure → Prop)

/-- The same tokens are ahead in both runs, and the invariant holds of them. -/
def Same (s t : Stream) : Prop := s = t ∧ I.holds s

/-- Both runs fail in the same way, which is as the invariant says. -/
def SameFailure (e f : Failure) : Prop := e = f ∧ I.fails e

/-- Both runs go on, or both meet the same problem. -/
theorem meet_self {s : Stream} (hs : (∀ p, s.current.kind ≠ .problem p) → I.holds s)
    (hproblem : ∀ p, s.current.kind = .problem p → I.fails (.lexical p s.current)) :
    Stream.Meet I.Same excused I.SameFailure s s := by
  by_cases hp : ∃ p, s.current.kind = .problem p
  · obtain ⟨p, hp⟩ := hp
    exact .failure hp hp ⟨rfl, hproblem p hp⟩
  · have hspelled : ∀ p, s.current.kind ≠ .problem p := fun p h => hp ⟨p, h⟩
    exact .goOn ⟨rfl, hs hspelled⟩ hspelled hspelled

theorem meet_advance {s t : Stream} (h : I.Same s t) (hend : s.current.kind ≠ .endOfInput) :
    Stream.Meet I.Same excused I.SameFailure s.advance t.advance := by
  obtain ⟨rfl, hs⟩ := h
  exact I.meet_self excused (I.advance hs hend) fun p => I.problem hs hend

end Stream.Invariant

namespace Lockstep

/-! Where two runs have the same spans and the same nodes, they go on to have the same ones. -/

theorem join_same {a b c d : Span} (h : a = b) (h' : c = d) :
    (⟨a.start, c.stop⟩ : Span) = ⟨b.start, d.stop⟩ := by
  rw [h, h']

theorem push_same {A B : Arena} {n m : Node} (h : A = B) (hmatches : Node.Matches Eq n m) :
    A.size = B.size ∧ A.push n = B.push m := by
  rw [h, hmatches.eq]
  exact ⟨rfl, rfl⟩

theorem pushList_same {A B : Arena} {ids ids' : List NodeId} (h : A = B)
    (hids : List.Forall₂ Eq ids ids') : A.size = B.size ∧ A.pushList ids = B.pushList ids' := by
  rw [List.forall₂_eq_eq_eq] at hids
  rw [h, hids]
  exact ⟨rfl, rfl⟩

/-- Two runs on the same tokens. -/
def alone (I : Stream.Invariant) (excused : Failure → Prop) : Lockstep where
  left := I.policy
  right := I.policy
  stream := I.Same
  arena := Eq
  span := Eq
  node := Eq
  excused := excused
  failure := I.SameFailure
  front := by
    rintro s _ ⟨rfl, _⟩
    exact .refl _
  text := by
    rintro s _ ⟨rfl, _⟩ _
    rfl
  frontSpan := by
    rintro s _ ⟨rfl, _⟩ _
    rfl
  second := by
    rintro s _ ⟨rfl, _⟩ _
    exact .inl rfl
  third := by
    rintro s _ ⟨rfl, _⟩ _ _
    exact .inl rfl
  advance h hopen := I.meet_advance excused h (ne_end_of_open hopen)
  unexpected := by
    rintro s _ e ⟨rfl, hs⟩
    exact .inr ⟨rfl, I.unexpected e hs⟩
  promote h := h
  range := by
    rintro s _ hpolicy ⟨rfl, hs⟩ hkind
    exact .inr ⟨hpolicy, rfl, I.range hpolicy hs hkind⟩
  join := join_same
  push := push_same
  pushList := pushList_same

variable {I : Stream.Invariant} {excused : Failure → Prop} {source : String}

theorem whole_alone : (alone I excused).Whole where
  kind h := by rw [h.1]
  advance h hkind := I.meet_advance excused h (by rw [hkind]; exact Kind.noConfusion)
  empty := rfl

/-- Runs on the same tokens give the same tree, and the same trees of a script. -/
theorem Trees.eq {t u : Tree} (h : (alone I excused).Trees source source t u) : t = u := by
  obtain ⟨hleft, hright, harena, hroot⟩ := h
  cases t
  cases u
  cases hleft
  cases hright
  cases harena
  cases hroot
  rfl

theorem Trees.all_eq {ts us : List Tree}
    (h : List.Forall₂ ((alone I excused).Trees source source) ts us) : ts = us := by
  rw [← List.forall₂_eq_eq_eq]
  exact h.imp fun _ _ => Trees.eq

end Lockstep

end TaggedSql
