/-!
# Byte offsets into a text

Offsets count the bytes of the UTF-8 encoding, while texts are lists of characters. A cut at an
offset succeeds exactly when the offset is a character boundary of the text:

* `dropBytes?`, `takeBytes?`: the text after, and up to, an exact offset;
* `takeFitting`: the longest beginning that fits into a number of bytes, for offsets that may lie
  inside a character or beyond the end;
* `slice?`: the text between two offsets.
-/

namespace TaggedSql.Text

/-- The number of bytes that the characters occupy in UTF-8. -/
def width : List Char → Nat
  | [] => 0
  | c :: cs => c.utf8Size + width cs

/-- The text after exactly `n` bytes, if `n` is a character boundary of it. -/
def dropBytes? : List Char → Nat → Option (List Char)
  | cs, 0 => some cs
  | [], _ + 1 => none
  | c :: cs, n + 1 => if c.utf8Size ≤ n + 1 then dropBytes? cs (n + 1 - c.utf8Size) else none

/-- The text up to exactly `n` bytes, if `n` is a character boundary of it. -/
def takeBytes? : List Char → Nat → Option (List Char)
  | _, 0 => some []
  | [], _ + 1 => none
  | c :: cs, n + 1 =>
    if c.utf8Size ≤ n + 1 then (takeBytes? cs (n + 1 - c.utf8Size)).map (c :: ·) else none

/-- The longest beginning of the text that fits into `n` bytes. -/
def takeFitting : List Char → Nat → List Char
  | [], _ => []
  | c :: cs, n => if c.utf8Size ≤ n then c :: takeFitting cs (n - c.utf8Size) else []

/-- The text from offset `start` to offset `stop`, if both are character boundaries in order. -/
def slice? (cs : List Char) (start stop : Nat) : Option (List Char) :=
  if start ≤ stop then (dropBytes? cs start).bind (takeBytes? · (stop - start)) else none

@[simp]
theorem width_nil : width [] = 0 := rfl

@[simp]
theorem width_cons (c : Char) (cs : List Char) : width (c :: cs) = c.utf8Size + width cs := rfl

@[simp]
theorem width_append (as bs : List Char) : width (as ++ bs) = width as + width bs := by
  induction as with
  | nil => simp
  | cons a as ih => simp [ih, Nat.add_assoc]

/-- Dropping the bytes of a beginning leaves the rest. -/
theorem dropBytes?_append (as bs : List Char) : dropBytes? (as ++ bs) (width as) = some bs := by
  induction as with
  | nil => cases bs <;> rfl
  | cons a as ih =>
      have hpos := a.utf8Size_pos
      obtain ⟨n, hn⟩ : ∃ n, width (a :: as) = n + 1 := ⟨width (a :: as) - 1, by simp; omega⟩
      rw [hn, List.cons_append, dropBytes?, if_pos (by rw [← hn, width_cons]; omega), ← hn,
        width_cons, Nat.add_sub_cancel_left, ih]

/-- Taking the bytes of a beginning gives the beginning. -/
theorem takeBytes?_append (as bs : List Char) : takeBytes? (as ++ bs) (width as) = some as := by
  induction as with
  | nil => cases bs <;> rfl
  | cons a as ih =>
      have hpos := a.utf8Size_pos
      obtain ⟨n, hn⟩ : ∃ n, width (a :: as) = n + 1 := ⟨width (a :: as) - 1, by simp; omega⟩
      rw [hn, List.cons_append, takeBytes?, if_pos (by rw [← hn, width_cons]; omega), ← hn,
        width_cons, Nat.add_sub_cancel_left, ih, Option.map_some]

/-- The slice between the offsets of a middle part is that part. -/
theorem slice?_append (as bs cs : List Char) :
    slice? (as ++ (bs ++ cs)) (width as) (width as + width bs) = some bs := by
  rw [slice?, if_pos (Nat.le_add_right _ _), dropBytes?_append, Option.bind_some,
    Nat.add_sub_cancel_left, takeBytes?_append]

end TaggedSql.Text
