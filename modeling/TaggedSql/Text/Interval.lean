/-!
# Sorted intervals of code points

A property of characters is kept as a list of closed intervals of code points in rising order.
The order lets a lookup stop at the first interval that begins beyond the character, so a
character of a low block never walks the whole table.
-/

namespace TaggedSql.Text

/-- A closed interval of code points, given by its first and last member. -/
abbrev Interval := Nat × Nat

namespace Interval

/-- Whether a code point lies in one of the intervals, which stand in rising order. -/
def covers : List Interval → Nat → Bool
  | [], _ => false
  | (first, last) :: more, n => if n < first then false else n ≤ last || covers more n

/-- Whether the intervals are non-empty, rise, and leave a gap between neighbours. -/
def rising : List Interval → Bool
  | [] => true
  | [(first, last)] => first ≤ last
  | (first, last) :: (next, stop) :: more =>
    first ≤ last && last + 1 < next && rising ((next, stop) :: more)

theorem covers_nil (n : Nat) : covers [] n = false := rfl

theorem covers_cons (first last : Nat) (more : List Interval) (n : Nat) :
    covers ((first, last) :: more) n =
      if n < first then false else n ≤ last || covers more n := rfl

/-- A successful lookup comes from an interval of the table that holds the code point. -/
theorem exists_mem_of_covers {table : List Interval} {n : Nat} (h : covers table n = true) :
    ∃ r ∈ table, r.1 ≤ n ∧ n ≤ r.2 := by
  induction table with
  | nil => simp [covers] at h
  | cons r more ih =>
      obtain ⟨first, last⟩ := r
      rw [covers_cons] at h
      split at h
      next => cases h
      next hfirst =>
        rcases Bool.or_eq_true_iff.1 h with hlast | hmore
        · exact ⟨(first, last), by simp, by simpa using hfirst, by simpa using hlast⟩
        · obtain ⟨r, hr, hin⟩ := ih hmore
          exact ⟨r, by simp [hr], hin⟩

end Interval

end TaggedSql.Text
