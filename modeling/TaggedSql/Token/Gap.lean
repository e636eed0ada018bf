import TaggedSql.Text.Blank

/-!
# Gaps between tokens

A gap is a run of white space and comments. A line comment starts with `--` and ends before the
next newline or at the end of the source; a block comment starts with `/*` and ends with the first
`*/` behind it. A block comment that never ends makes the gap unclosed.
-/

namespace TaggedSql

/-- What stands before the next token. -/
inductive Gap where
  /-- The characters of the gap, and those behind it. -/
  | closed (skipped rest : List Char)
  /-- The characters up to a block comment that never ends, and the comment. -/
  | unclosed (skipped comment : List Char)
  deriving DecidableEq, Repr

namespace Gap

/-- The gap with more characters before it. -/
def after (front : List Char) : Gap → Gap
  | closed skipped rest => closed (front ++ skipped) rest
  | unclosed skipped comment => unclosed (front ++ skipped) comment

/-- All characters of a gap and behind it. -/
def all : Gap → List Char
  | closed skipped rest => skipped ++ rest
  | unclosed skipped comment => skipped ++ comment

/-- The characters up to and including the first `*/`, and those behind it. -/
def blockEnd? : List Char → Option (List Char × List Char)
  | [] => none
  | [_] => none
  | c :: d :: cs =>
    if c = '*' ∧ d = '/' then some ([c, d], cs)
    else (blockEnd? (d :: cs)).map fun r => (c :: r.1, r.2)

theorem append_of_blockEnd? {cs comment rest : List Char}
    (h : blockEnd? cs = some (comment, rest)) : comment ++ rest = cs := by
  fun_induction blockEnd? cs generalizing comment with
  | case1 => cases h
  | case2 => cases h
  | case3 c d cs hend => cases h; rfl
  | case4 c d cs hend ih =>
      obtain ⟨⟨front, back⟩, hrec, heq⟩ := Option.map_eq_some_iff.1 h
      cases heq
      simp [ih hrec]

/-- Reads the gap at the beginning of a text. -/
def read : List Char → Gap
  | [] => closed [] []
  | c :: cs =>
    if Text.isBlank c then after [c] (read cs)
    else if c = '-' ∧ cs.head? = some '-' then
      after (c :: cs.takeWhile (· ≠ '\n')) (read (cs.dropWhile (· ≠ '\n')))
    else if c = '/' ∧ cs.head? = some '*' then
      match _hend : blockEnd? cs.tail with
      | none => unclosed [] (c :: cs)
      | some (comment, rest) => after (c :: '*' :: comment) (read rest)
    else closed [] (c :: cs)
  termination_by cs => cs.length
  decreasing_by
    · simp
    · have := (List.dropWhile_sublist (fun x => decide (x ≠ '\n')) (l := cs)).length_le
      simp only [List.length_cons]
      omega
    · have := congrArg List.length (append_of_blockEnd? _hend)
      simp only [List.length_append, List.length_tail] at this
      simp only [List.length_cons]
      omega

theorem all_after (front : List Char) (g : Gap) : (after front g).all = front ++ g.all := by
  cases g <;> simp [after, all]

/-- Reading a gap loses nothing. -/
theorem all_read (cs : List Char) : (read cs).all = cs := by
  fun_induction read cs with
  | case1 => rfl
  | case2 c cs hblank ih => rw [all_after, ih]; rfl
  | case3 c cs hblank hline ih => rw [all_after, ih]; simp
  | case4 c cs hblank hline hblock h => rfl
  | case5 c cs hblank hline hblock comment rest h ih =>
      obtain ⟨d, ds, rfl⟩ : ∃ d ds, cs = d :: ds := by
        cases cs with
        | nil => simp at hblock
        | cons d ds => exact ⟨d, ds, rfl⟩
      have hstar : d = '*' := by simpa using hblock.2
      rw [all_after, ih]
      simpa [hstar] using append_of_blockEnd? h
  | case6 => rfl

/-- A block comment that never ends is not empty. -/
theorem comment_ne_nil {cs skipped comment : List Char} (h : read cs = unclosed skipped comment) :
    comment ≠ [] := by
  have key : ∀ {front : List Char} {g : Gap} {skipped : List Char},
      (∀ s, g = unclosed s comment → comment ≠ []) →
      after front g = unclosed skipped comment → comment ≠ [] := by
    intro front g skipped hg heq
    cases g with
    | closed s r => cases heq
    | unclosed s r => cases heq; exact hg s rfl
  fun_induction read cs generalizing skipped with
  | case1 => cases h
  | case2 c cs hblank ih => exact key (fun _ => ih) h
  | case3 c cs hblank hline ih => exact key (fun _ => ih) h
  | case4 c cs hblank hline hblock hend => cases h; simp
  | case5 c cs hblank hline hblock front rest hend ih => exact key (fun _ => ih) h
  | case6 => cases h

end Gap

end TaggedSql
