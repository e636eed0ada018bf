import TaggedSql.Text.Interval

/-!
# Blank characters

The characters with the Unicode property `White_Space`. They separate tokens and have no other
meaning.
-/

namespace TaggedSql.Text

/-- The code points with the property `White_Space`, in rising order. -/
def blankIntervals : List Interval :=
  [(0x9, 0xD), (0x20, 0x20), (0x85, 0x85), (0xA0, 0xA0), (0x1680, 0x1680), (0x2000, 0x200A),
   (0x2028, 0x2029), (0x202F, 0x202F), (0x205F, 0x205F), (0x3000, 0x3000)]

/-- Whether a character is white space. -/
def isBlank (c : Char) : Bool := Interval.covers blankIntervals c.toNat

example : Interval.rising blankIntervals = true := by decide

/-- Every character that the core library calls white space is blank. -/
theorem isBlank_of_isWhitespace {c : Char} (h : c.isWhitespace = true) : isBlank c = true := by
  simp only [Char.isWhitespace, Bool.or_eq_true, decide_eq_true_eq] at h
  rcases h with ((rfl | rfl) | rfl) | rfl <;> decide

end TaggedSql.Text
