import TaggedSql.Diagnostic
import TaggedSql.Proofs.Token.Tiling

/-!
# Lines of a text

A byte offset is shown as a line and a column. Between two offsets that are boundaries of characters
stands at least one character, and each character moves the place that is shown: a newline to the next
line, any other one to the next column. So the place tells the offset.

* `isGreatest_takeFitting`: the boundary that an offset stands for;
* `IsLine`: a text cut around one of its lines, and `exists_line`: the line around a place;
* `after_of_line`, `splitOn_of_line`: the number of a line, and how it is found by splitting the text;
* `Position.Before`, `Position.offset`: the order of places, and the offset of a place;
* `position_identifies`: places stand in the order of offsets, and each tells its offset.
-/

namespace TaggedSql

namespace Text

variable {cs before line behind front part rest : List Char} {n : Nat}

/-! ### The boundary that an offset stands for -/

theorem takeFitting_isPrefix (cs : List Char) (n : Nat) : takeFitting cs n <+: cs := by
  induction cs generalizing n with
  | nil => exact List.nil_prefix
  | cons c cs ih =>
    rw [takeFitting]
    split
    next => exact List.cons_prefix_cons.2 ⟨rfl, ih _⟩
    next => exact List.nil_prefix

theorem width_takeFitting_le (cs : List Char) (n : Nat) : width (takeFitting cs n) ≤ n := by
  induction cs generalizing n with
  | nil => exact Nat.zero_le n
  | cons c cs ih =>
    rw [takeFitting]
    split
    next hfits =>
      have := ih (n - c.utf8Size)
      rw [width_cons]
      omega
    next => exact Nat.zero_le n

/-- What fits is taken. -/
theorem isPrefix_takeFitting (h : width front ≤ n) (rest : List Char) :
    front <+: takeFitting (front ++ rest) n := by
  induction front generalizing n with
  | nil => exact List.nil_prefix
  | cons c front ih =>
    rw [width_cons] at h
    rw [List.cons_append, takeFitting, if_pos (by omega)]
    exact List.cons_prefix_cons.2 ⟨rfl, ih (by omega)⟩

/-- Exactly the characters before a boundary fit into its bytes. -/
theorem takeFitting_append (front rest : List Char) :
    takeFitting (front ++ rest) (width front) = front := by
  obtain ⟨more, hmore⟩ := isPrefix_takeFitting (Nat.le_refl (width front)) rest
  have hwidth := width_takeFitting_le (front ++ rest) (width front)
  rw [← hmore, width_append] at hwidth
  cases more with
  | nil => rw [← hmore, List.append_nil]
  | cons c more =>
    have := c.utf8Size_pos
    rw [width_cons] at hwidth
    omega

theorem width_le_of_isPrefix (h : front <+: cs) : width front ≤ width cs := by
  obtain ⟨rest, rfl⟩ := h
  rw [width_append]
  exact Nat.le_add_right _ _

/-- A beginning of a text that is not narrower than another one continues it. -/
theorem isPrefix_of_width_le {front' : List Char} (h : front <+: cs) (h' : front' <+: cs)
    (hwidth : width front ≤ width front') : front <+: front' := by
  rcases List.prefix_or_prefix_of_prefix h h' with hle | ⟨more, rfl⟩
  · exact hle
  · rw [width_append] at hwidth
    have hmore : more = [] := by
      by_contra hne
      have := Lexer.width_pos hne
      omega
    rw [hmore, List.append_nil]

/-- The characters that fit end at the greatest boundary up to an offset. -/
theorem isGreatest_takeFitting (cs : List Char) (n : Nat) :
    IsGreatest {b | IsBoundary cs b ∧ b ≤ min n (width cs)} (width (takeFitting cs n)) := by
  constructor
  · obtain ⟨rest, hrest⟩ := takeFitting_isPrefix cs n
    have hle := width_le_of_isPrefix (takeFitting_isPrefix cs n)
    exact ⟨⟨_, rest, hrest.symm, rfl⟩, Nat.le_min.2 ⟨width_takeFitting_le cs n, hle⟩⟩
  · rintro _ ⟨⟨front, rest, rfl, rfl⟩, hle⟩
    exact width_le_of_isPrefix (isPrefix_takeFitting (Nat.le_min.1 hle).1 rest)

/-! ### The line around a place -/

/-- A line begins behind the text: at the very beginning, or behind a newline. -/
def BeginsLine (before : List Char) : Prop := before = [] ∨ ∃ front, before = front ++ ['\n']

/-- A line ends before the text: at the very end, or before a newline. -/
def EndsLine (behind : List Char) : Prop := behind = [] ∨ ∃ more, behind = '\n' :: more

/-- A text cut around one of its lines. -/
structure IsLine (cs before line behind : List Char) : Prop where
  cut : cs = before ++ (line ++ behind)
  begins : BeginsLine before
  clean : '\n' ∉ line
  ends : EndsLine behind

/-- What stands behind the last newline. -/
theorem lastLine_of_begins (hbefore : BeginsLine before) (hline : '\n' ∉ line) :
    lastLine (before ++ line) = line := by
  have hstop : before.reverse.takeWhile (· ≠ '\n') = [] := by
    rcases hbefore with rfl | ⟨front, rfl⟩ <;> simp
  have hpass : ∀ c ∈ line.reverse, decide (c ≠ '\n') = true := by
    intro c hc
    rw [decide_eq_true_iff]
    rintro rfl
    exact hline (List.mem_reverse.1 hc)
  rw [lastLine, List.reverse_append, List.takeWhile_append_of_pos hpass, hstop, List.append_nil,
    List.reverse_reverse]

/-- Behind the last newline of a text a line begins. -/
theorem exists_beginsLine (cs : List Char) :
    ∃ before, BeginsLine before ∧ '\n' ∉ lastLine cs ∧ cs = before ++ lastLine cs := by
  refine ⟨(cs.reverse.dropWhile (· ≠ '\n')).reverse, ?_, ?_, ?_⟩
  · cases hrest : cs.reverse.dropWhile (· ≠ '\n') with
    | nil => exact .inl rfl
    | cons c more =>
      have hc := List.head?_dropWhile_not (· ≠ '\n') cs.reverse
      rw [hrest] at hc
      obtain rfl : c = '\n' := by simpa using hc
      exact .inr ⟨more.reverse, List.reverse_cons⟩
  · intro hmem
    have hne := List.mem_takeWhile_imp (List.mem_reverse.1 hmem)
    simp at hne
  · rw [lastLine, ← List.reverse_append, List.takeWhile_append_dropWhile, List.reverse_reverse]

/-- Before the first newline of a text a line ends. -/
theorem exists_endsLine (cs : List Char) :
    ∃ line behind, '\n' ∉ line ∧ EndsLine behind ∧ cs = line ++ behind := by
  refine ⟨cs.takeWhile (· ≠ '\n'), cs.dropWhile (· ≠ '\n'), ?_, ?_, ?_⟩
  · intro hmem
    have hne := List.mem_takeWhile_imp hmem
    simp at hne
  · cases hrest : cs.dropWhile (· ≠ '\n') with
    | nil => exact .inl rfl
    | cons c more =>
      have hc := List.head?_dropWhile_not (· ≠ '\n') cs
      rw [hrest] at hc
      obtain rfl : c = '\n' := by simpa using hc
      exact .inr ⟨more, rfl⟩
  · exact List.takeWhile_append_dropWhile.symm

/-- Every place of a text lies in a line, behind some of its characters and before the others. -/
theorem exists_line (front rest : List Char) :
    ∃ before part more behind, front = before ++ part ∧ rest = more ++ behind ∧
      IsLine (front ++ rest) before (part ++ more) behind := by
  obtain ⟨before, hbegins, hpart, hfront⟩ := exists_beginsLine front
  obtain ⟨more, behind, hmore, hends, hrest⟩ := exists_endsLine rest
  refine ⟨before, lastLine front, more, behind, hfront, hrest, ?_, hbegins, ?_, hends⟩
  · rw [← List.append_assoc, ← List.append_assoc, ← hfront, List.append_assoc, ← hrest]
  · rw [List.mem_append]
    exact not_or.2 ⟨hpart, hmore⟩

/-! ### Numbers of lines -/

/-- The place behind some characters of a line: as many lines as newlines before it, and as many
columns as characters. -/
theorem after_of_line (hbefore : BeginsLine before) (hpart : '\n' ∉ part) :
    Position.after (before ++ part) = ⟨before.count '\n' + 1, part.length + 1⟩ := by
  rw [Position.after, lastLine_of_begins hbefore hpart, List.count_append,
    List.count_eq_zero_of_not_mem hpart, Nat.add_zero]

theorem splitOn_cons (c : Char) (cs : List Char) :
    (c :: cs).splitOn '\n' =
      if (c == '\n') = true then [] :: cs.splitOn '\n' else (cs.splitOn '\n').modifyHead (c :: ·) :=
  List.splitOnP_cons_eq_if_modifyHead c cs

theorem splitOn_append_newline (front rest : List Char) :
    (front ++ '\n' :: rest).splitOn '\n' = front.splitOn '\n' ++ rest.splitOn '\n' := by
  simp only [List.splitOn_eq_splitOnP]
  exact List.splitOnP_append_cons front rest (beq_self_eq_true '\n')

theorem splitOn_of_notMem (h : '\n' ∉ line) : line.splitOn '\n' = [line] := by
  rw [List.splitOn_eq_splitOnP]
  refine List.splitOnP_eq_singleton fun c hc => ?_
  rw [beq_eq_false_iff_ne]
  rintro rfl
  exact h hc

/-- The pieces of a text, each with a newline behind it, are the text with a newline behind it. -/
theorem flatMap_splitOn (front : List Char) :
    (front.splitOn '\n').flatMap (· ++ ['\n']) = front ++ ['\n'] := by
  induction front with
  | nil => rfl
  | cons c front ih =>
    rw [splitOn_cons]
    split
    next hc =>
      rw [List.flatMap_cons, ih, eq_of_beq hc]
      rfl
    next =>
      cases hpieces : front.splitOn '\n' with
      | nil => simp [hpieces] at ih
      | cons piece more =>
        rw [hpieces, List.flatMap_cons] at ih
        rw [List.modifyHead_cons, List.flatMap_cons, List.cons_append, List.cons_append, ih]
        rfl

theorem length_splitOn (front : List Char) :
    (front.splitOn '\n').length = front.count '\n' + 1 := by
  induction front with
  | nil => rfl
  | cons c front ih =>
    rw [splitOn_cons]
    split
    next hc => rw [List.length_cons, ih, eq_of_beq hc, List.count_cons_self]
    next hc =>
      have hne : c ≠ '\n' := by simpa using hc
      rw [List.length_modifyHead, ih, List.count_cons_of_ne hne]

/-- A line is the piece with its number, and the pieces before it make up what stands before it. -/
theorem splitOn_of_line (h : IsLine cs before line behind) :
    ∃ earlier later, cs.splitOn '\n' = earlier ++ line :: later ∧
      earlier.length = before.count '\n' ∧ earlier.flatMap (· ++ ['\n']) = before ∧
      (later = [] ↔ behind = []) := by
  -- From the beginning of the line on, the line is the first piece.
  obtain ⟨later, hsplit, hlater⟩ : ∃ later, (line ++ behind).splitOn '\n' = line :: later ∧
      (later = [] ↔ behind = []) := by
    rcases h.ends with rfl | ⟨more, rfl⟩
    · exact ⟨[], by rw [List.append_nil, splitOn_of_notMem h.clean], by simp⟩
    · refine ⟨more.splitOn '\n', ?_, by simp [List.splitOn_ne_nil]⟩
      rw [splitOn_append_newline, splitOn_of_notMem h.clean]
      rfl
  rcases h.begins with rfl | ⟨front, rfl⟩
  · exact ⟨[], later, by rw [h.cut]; exact hsplit, rfl, rfl, hlater⟩
  · refine ⟨front.splitOn '\n', later, ?_, ?_, flatMap_splitOn front, hlater⟩
    · rw [h.cut, List.append_assoc, List.singleton_append, splitOn_append_newline, hsplit]
    · rw [length_splitOn, List.count_append, List.count_singleton_self]

/-! ### The order of places, and their offsets -/

namespace Position

/-- A place stands before another: on an earlier line, or on the same line further to the left. -/
def Before (p q : Position) : Prop := p.line < q.line ∨ p.line = q.line ∧ p.column < q.column

/-- The place of a text: a line of it, counted from one, and a character of the line or its end. -/
def IsIn (p : Position) (cs : List Char) : Prop :=
  1 ≤ p.line ∧ 1 ≤ p.column ∧
    ∃ line, (cs.splitOn '\n')[p.line - 1]? = some line ∧ p.column ≤ line.length + 1

/-- The bytes before a place: those of the pieces before its line, with a newline behind each of them,
and those of the characters before its column. -/
def offset (p : Position) (cs : List Char) : Nat :=
  width (((cs.splitOn '\n').take (p.line - 1)).flatMap (· ++ ['\n'])) +
    width (((cs.splitOn '\n')[p.line - 1]?.getD []).take (p.column - 1))

/-- Every further character leads to a later place. -/
theorem before_after_append (front : List Char) (hpart : part ≠ []) :
    (after front).Before (after (front ++ part)) := by
  by_cases hnewline : '\n' ∈ part
  · left
    have hpos := List.count_pos_iff.2 hnewline
    show front.count '\n' + 1 < (front ++ part).count '\n' + 1
    rw [List.count_append]
    omega
  · right
    obtain ⟨before, hbegins, hlast, hfront⟩ := exists_beginsLine front
    have hboth : '\n' ∉ lastLine front ++ part := by
      rw [List.mem_append]
      exact not_or.2 ⟨hlast, hnewline⟩
    have hlength := List.length_pos_iff.2 hpart
    rw [hfront, List.append_assoc, after_of_line hbegins hlast, after_of_line hbegins hboth]
    refine ⟨rfl, ?_⟩
    show (lastLine front).length + 1 < (lastLine front ++ part).length + 1
    rw [List.length_append]
    omega

/-- The place of a boundary is the one behind the characters before it. -/
theorem ofOffset_append (front rest : List Char) :
    ofOffset (front ++ rest) (width front) = after front := by
  rw [ofOffset, takeFitting_append]

theorem ofOffset_takeFitting (cs : List Char) (n : Nat) :
    ofOffset cs n = ofOffset cs (width (takeFitting cs n)) := by
  obtain ⟨rest, hrest⟩ := takeFitting_isPrefix cs n
  have hat := ofOffset_append (takeFitting cs n) rest
  rw [hrest] at hat
  exact hat.symm

/-- A later boundary has a later place. -/
theorem before_of_lt {p q : Nat} (hp : IsBoundary cs p) (hq : IsBoundary cs q) (hlt : p < q) :
    (ofOffset cs p).Before (ofOffset cs q) := by
  obtain ⟨front, rest, rfl, rfl⟩ := hp
  obtain ⟨front', rest', hcs, rfl⟩ := hq
  rw [ofOffset_append, hcs, ofOffset_append]
  -- Two beginnings of one text differ by the characters that the longer one has more.
  obtain ⟨part, rfl⟩ := isPrefix_of_width_le (List.prefix_append front rest)
    (hcs ▸ List.prefix_append front' rest') (Nat.le_of_lt hlt)
  refine before_after_append front ?_
  rintro rfl
  rw [List.append_nil] at hlt
  exact Nat.lt_irrefl _ hlt

/-- The place of a boundary is one of the text, and tells the boundary. -/
theorem offset_ofOffset {p : Nat} (hp : IsBoundary cs p) :
    (ofOffset cs p).IsIn cs ∧ (ofOffset cs p).offset cs = p := by
  obtain ⟨front, rest, rfl, rfl⟩ := hp
  obtain ⟨before, part, more, behind, rfl, rfl, hline⟩ := exists_line front rest
  have hpart : '\n' ∉ part := fun hmem => hline.clean (List.mem_append_left _ hmem)
  obtain ⟨earlier, later, hsplit, hlength, hearlier, _⟩ := splitOn_of_line hline
  have hget : (earlier ++ (part ++ more) :: later)[before.count '\n']? = some (part ++ more) := by
    rw [← hlength, List.getElem?_append_right (Nat.le_refl _), Nat.sub_self]
    rfl
  rw [ofOffset_append, after_of_line hline.begins hpart]
  constructor
  · refine ⟨Nat.le_add_left _ _, Nat.le_add_left _ _, part ++ more, ?_, ?_⟩
    · rw [hsplit]
      exact hget
    · simp
  · simp only [offset, Nat.add_sub_cancel, hsplit, hget, Option.getD_some]
    rw [← hlength, List.take_left, hearlier, List.take_left, width_append]

end Position

end Text

open Text

/-- The line and the column of a diagnostic identify where it begins: later boundaries have later
places, a place tells its boundary, and any other offset has the place of the last boundary before
it. -/
theorem position_identifies (source : String) :
    (∀ d e : Diagnostic, IsBoundary source.toList d.span.start →
      IsBoundary source.toList e.span.start → d.span.start < e.span.start →
      (d.position source).Before (e.position source)) ∧
    (∀ d e : Diagnostic, IsBoundary source.toList d.span.start →
      IsBoundary source.toList e.span.start → d.position source = e.position source →
      d.span.start = e.span.start) ∧
    (∀ d : Diagnostic, IsBoundary source.toList d.span.start →
      (d.position source).IsIn source.toList ∧
        (d.position source).offset source.toList = d.span.start) ∧
    ∀ d : Diagnostic, 1 ≤ (d.position source).line ∧ 1 ≤ (d.position source).column ∧
      ∃ p, IsGreatest {b | IsBoundary source.toList b ∧ b ≤ min d.span.start (width source.toList)} p ∧
        d.position source = Position.ofOffset source.toList p := by
  refine ⟨fun d e hd he hlt => Position.before_of_lt hd he hlt, fun d e hd he heq => ?_,
    fun d hd => Position.offset_ofOffset hd, fun d => ?_⟩
  · have hoffset := (Position.offset_ofOffset hd).2
    rw [show Position.ofOffset source.toList d.span.start =
      Position.ofOffset source.toList e.span.start from heq] at hoffset
    exact hoffset.symm.trans (Position.offset_ofOffset he).2
  · exact ⟨Nat.le_add_left _ _, Nat.le_add_left _ _, _, isGreatest_takeFitting _ _,
      Position.ofOffset_takeFitting _ _⟩

/-- A newline is the last place of its line, and what follows it the first of the next line. -/
theorem position_identifies_newline :
    let source := "aé\nb"
    let d := Diagnostic.refusal "" ⟨3, 4⟩
    let e := Diagnostic.refusal "" ⟨4, 5⟩
    d.position source = ⟨1, 3⟩ ∧ e.position source = ⟨2, 1⟩ ∧
      (d.position source).Before (e.position source) ∧
      (e.position source).offset source.toList = 4 := by
  have hd : IsBoundary "aé\nb".toList 3 := ⟨['a', 'é'], ['\n', 'b'], by decide, by decide⟩
  have he : IsBoundary "aé\nb".toList 4 := ⟨['a', 'é', '\n'], ['b'], by decide, by decide⟩
  obtain ⟨hbefore, _, hoffset, _⟩ := position_identifies "aé\nb"
  exact ⟨by decide, by decide,
    hbefore (Diagnostic.refusal "" ⟨3, 4⟩) (Diagnostic.refusal "" ⟨4, 5⟩) hd he (by decide),
    (hoffset (Diagnostic.refusal "" ⟨4, 5⟩) he).2⟩

end TaggedSql
