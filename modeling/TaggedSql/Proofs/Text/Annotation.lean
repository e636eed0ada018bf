import TaggedSql.Proofs.Text.Lines

/-!
# Carets below a line

An annotated diagnostic ends with two lines: the line of the source at which the diagnostic begins,
without its terminator, and below it as many carets as there are characters to point at. Number and
carets stand behind gutters of the same width, so a caret stands below the character with its column.

* `LineAt`: the line of a text around an offset, without its terminator;
* `lineText_of_line`, `exists_lineAt`: the text that is shown is that of the line around the offset;
* `splitOn_annotationLines`: the lines of an annotated diagnostic;
* `annotate_underlines`: what the last two lines show, for every diagnostic that padding reaches.
-/

namespace TaggedSql

namespace Text

variable {cs before line behind front part rest : List Char} {p : Nat}

/-! ### The text of a line -/

theorem pieces_eq_splitOn (cs : List Char) : pieces cs = cs.splitOn '\n' := by
  induction cs with
  | nil => rfl
  | cons c cs ih =>
    rw [pieces, splitOn_cons, ih]
    by_cases hc : c = '\n'
    · rw [if_pos hc, if_pos (beq_iff_eq.2 hc)]
    · rw [if_neg hc, if_neg (by simpa using hc)]
      cases hpieces : cs.splitOn '\n' with
      | nil => exact absurd hpieces (List.splitOn_ne_nil _ _)
      | cons piece more => rfl

theorem dropReturn_concat (cs : List Char) : dropReturn (cs ++ ['\r']) = cs := by
  simp [dropReturn]

theorem dropReturn_of_ne (h : cs.getLast? ≠ some '\r') : dropReturn cs = cs := by
  rw [← List.head?_reverse] at h
  rw [dropReturn]
  split
  next front hfront =>
    rw [hfront] at h
    exact absurd rfl h
  next => rfl

/-- The text of a line is what stands between two newlines; a carriage return before a newline belongs
to the terminator. -/
theorem lineText_of_line (h : IsLine cs before line behind) :
    lineText cs (before.count '\n' + 1) = if behind = [] then line else dropReturn line := by
  obtain ⟨earlier, later, hsplit, hlength, _, hlater⟩ := splitOn_of_line h
  have hdrop : (pieces cs).drop (before.count '\n' + 1 - 1) = line :: later := by
    rw [pieces_eq_splitOn, hsplit, Nat.add_sub_cancel, ← hlength, List.drop_left]
  rw [lineText, hdrop]
  cases later with
  | nil => rw [if_pos (hlater.1 rfl)]
  | cons next later =>
    have hne : behind ≠ [] := fun hnil => List.cons_ne_nil _ _ (hlater.2 hnil)
    rw [if_neg hne]

/-- The line of a text around an offset, without its terminator. The terminator belongs to the line
that it ends. -/
structure LineAt (cs : List Char) (p : Nat) (before text ending behind : List Char) : Prop where
  cut : cs = before ++ (text ++ (ending ++ behind))
  begins : BeginsLine before
  clean : '\n' ∉ text
  ends : ending = ['\r', '\n'] ∨ ending = ['\n'] ∧ text.getLast? ≠ some '\r' ∨
    ending = [] ∧ behind = []
  start : width before ≤ p
  stop : p < width (before ++ (text ++ ending)) ∨ ending = [] ∧ p = width cs

/-- The terminator of a line that ends before a newline. -/
theorem exists_terminator (line : List Char) :
    ∃ text ending, line ++ ['\n'] = text ++ ending ∧ text <+: line ∧ dropReturn line = text ∧
      (ending = ['\r', '\n'] ∨ ending = ['\n'] ∧ text.getLast? ≠ some '\r') := by
  by_cases hreturn : line.getLast? = some '\r'
  · obtain ⟨text, rfl⟩ := List.getLast?_eq_some_iff.1 hreturn
    exact ⟨text, ['\r', '\n'], by simp, List.prefix_append _ _, dropReturn_concat text, .inl rfl⟩
  · exact ⟨line, ['\n'], rfl, List.prefix_rfl, dropReturn_of_ne hreturn, .inr ⟨rfl, hreturn⟩⟩

/-- A line that ends before a newline, without its terminator. -/
theorem exists_lineAt_of_newline {more : List Char}
    (hline : IsLine (before ++ part ++ (more ++ '\n' :: behind)) before (part ++ more)
      ('\n' :: behind)) :
    ∃ text ending, LineAt (before ++ part ++ (more ++ '\n' :: behind)) (width (before ++ part)) before
      text ending behind ∧ dropReturn (part ++ more) = text ∧ text <+: part ++ more := by
  obtain ⟨text, ending, hending, hinitial, hdrop, hends⟩ := exists_terminator (part ++ more)
  refine ⟨text, ending, ⟨?_, hline.begins, ?_, ?_, ?_, .inl ?_⟩, hdrop, hinitial⟩
  · have hcut : before ++ part ++ (more ++ '\n' :: behind) =
        before ++ (part ++ more ++ ['\n'] ++ behind) := by simp
    rw [hcut, hending, List.append_assoc text]
  · exact fun hmem => hline.clean (hinitial.subset hmem)
  · rcases hends with hends | hends
    · exact .inl hends
    · exact .inr (.inl hends)
  · rw [width_append]
    omega
  · have hnewline : width ['\n'] = 1 := by decide
    rw [← hending]
    simp only [width_append]
    omega

/-- The line around a boundary, and the text that is shown for it. -/
theorem exists_lineAt (front rest : List Char) :
    ∃ before part text ending behind, front = before ++ part ∧ '\n' ∉ part ∧
      LineAt (front ++ rest) (width front) before text ending behind ∧
      lineText (front ++ rest) (before.count '\n' + 1) = text ∧
      (width part < width text → part <+: text) := by
  obtain ⟨before, part, more, behind, rfl, rfl, hline⟩ := exists_line front rest
  have hpart : '\n' ∉ part := fun hmem => hline.clean (List.mem_append_left _ hmem)
  have htext := lineText_of_line hline
  rcases hline.ends with rfl | ⟨behind, rfl⟩
  · rw [if_pos rfl] at htext
    refine ⟨before, part, part ++ more, [], [], rfl, hpart, ?_, htext, fun _ =>
      List.prefix_append _ _⟩
    refine ⟨by simp, hline.begins, hline.clean, .inr (.inr ⟨rfl, rfl⟩), ?_, ?_⟩
    · rw [width_append]
      omega
    · -- Without a terminator the last place of the line is the end of the text.
      simp only [width_append, List.append_nil, true_and]
      omega
  · rw [if_neg (by simp)] at htext
    obtain ⟨text, ending, hlineAt, hdrop, hinitial⟩ := exists_lineAt_of_newline hline
    refine ⟨before, part, text, ending, behind, rfl, hpart, hlineAt, htext.trans hdrop, fun hlt => ?_⟩
    exact isPrefix_of_width_le (List.prefix_append part more) hinitial (Nat.le_of_lt hlt)

end Text

open Text

/-! ### The lines of an annotated diagnostic -/

/-- A text without newlines. -/
def OneLine (text : String) : Prop := '\n' ∉ text.toList

instance (text : String) : Decidable (OneLine text) := inferInstanceAs (Decidable (¬ _))

theorem oneLine_append_iff {a b : String} : OneLine (a ++ b) ↔ OneLine a ∧ OneLine b := by
  rw [OneLine, String.toList_append, List.mem_append, not_or]
  rfl

theorem OneLine.append {a b : String} (ha : OneLine a) (hb : OneLine b) : OneLine (a ++ b) :=
  oneLine_append_iff.2 ⟨ha, hb⟩

theorem oneLine_ofList {cs : List Char} (h : '\n' ∉ cs) : OneLine (String.ofList cs) := by
  rwa [OneLine, String.toList_ofList]

theorem newline_notMem_toDigits (n : Nat) : '\n' ∉ Nat.toDigits 10 n := by
  intro hmem
  have hdigit := Nat.isDigit_of_mem_toDigits (by decide) (by decide) hmem
  exact absurd hdigit (by decide)

theorem oneLine_toString (n : Nat) : OneLine (toString n) := by
  rw [Nat.toString_eq_ofList_toDigits]
  exact oneLine_ofList (newline_notMem_toDigits n)

theorem oneLine_repeated (n : Nat) {c : Char} (hc : c ≠ '\n') :
    OneLine (Diagnostic.repeated n c) := by
  refine oneLine_ofList fun hmem => ?_
  exact hc (List.mem_replicate.1 hmem).2.symm

/-- Joining lines by newlines and splitting the text again gives the lines back, except that the first
of them may have newlines of its own. -/
theorem splitOn_intercalate_cons (first : List Char) {lines : List (List Char)}
    (hclean : ∀ l ∈ lines, '\n' ∉ l) (hlines : lines ≠ []) :
    (['\n'].intercalate (first :: lines)).splitOn '\n' = first.splitOn '\n' ++ lines := by
  cases lines with
  | nil => exact absurd rfl hlines
  | cons next lines =>
    have hrest := List.splitOn_intercalate '\n' hclean hlines
    rw [List.intercalate_cons_cons, List.append_assoc, List.singleton_append, splitOn_append_newline,
      hrest]

namespace Diagnostic

variable (d : Diagnostic) (source : String)

/-- The first line of the annotated form. -/
def header : String := d.stage.label ++ " error: " ++ d.message

/-- The line that is shown is the one around the boundary that the diagnostic begins at. -/
theorem exists_lineText :
    ∃ before part text ending behind,
      takeFitting source.toList d.span.start = before ++ part ∧
      LineAt source.toList (width (before ++ part)) before text ending behind ∧
      lineText source.toList (d.position source).line = text ∧
      d.position source = ⟨before.count '\n' + 1, part.length + 1⟩ ∧
      (width part < width text → part <+: text) := by
  obtain ⟨rest, hrest⟩ := takeFitting_isPrefix source.toList d.span.start
  obtain ⟨before, part, text, ending, behind, hfront, hpart, hline, htext, hshorter⟩ :=
    exists_lineAt (takeFitting source.toList d.span.start) rest
  have hplace : d.position source = ⟨before.count '\n' + 1, part.length + 1⟩ := by
    rw [position, Position.ofOffset, hfront]
    exact after_of_line hline.begins hpart
  rw [hrest, hfront] at hline
  rw [hrest] at htext
  refine ⟨before, part, text, ending, behind, hfront, hline, ?_, hplace, hshorter⟩
  rw [hplace]
  exact htext

/-- Only the first line can have newlines of its own. -/
theorem oneLine_of_mem_tail {l : String} (hl : l ∈ (d.annotationLines source).tail) : OneLine l := by
  have hnumber := oneLine_toString (d.position source).line
  have hcolumn := oneLine_toString (d.position source).column
  have hgutter := oneLine_repeated (toString (d.position source).line).length
    (show ' ' ≠ '\n' by decide)
  have hpadding := oneLine_repeated ((d.position source).column - 1) (show ' ' ≠ '\n' by decide)
  have hcarets := oneLine_repeated (d.caretCount source) (show '^' ≠ '\n' by decide)
  have hline : OneLine (String.ofList (lineText source.toList (d.position source).line)) := by
    obtain ⟨_, _, text, _, _, _, hline, htext, _, _⟩ := d.exists_lineText source
    rw [htext]
    exact oneLine_ofList hline.clean
  have hbar : OneLine " | " := by decide
  simp only [annotationLines, List.tail_cons, List.mem_cons, List.not_mem_nil, or_false] at hl
  rcases hl with rfl | rfl | rfl | rfl
  · exact (((hgutter.append (by decide)).append hnumber).append (by decide)).append hcolumn
  · exact hgutter.append (by decide)
  · exact (hnumber.append hbar).append hline
  · exact ((hgutter.append hbar).append hpadding).append hcarets

/-- Behind its first line an annotated diagnostic has four lines. -/
theorem splitOn_annotationLines :
    (String.intercalate "\n" (d.annotationLines source)).toList.splitOn '\n' =
      d.header.toList.splitOn '\n' ++ (d.annotationLines source).tail.map String.toList := by
  have hclean : ∀ l ∈ (d.annotationLines source).tail.map String.toList, '\n' ∉ l := by
    intro l hl
    obtain ⟨line, hline, rfl⟩ := List.mem_map.1 hl
    exact d.oneLine_of_mem_tail source hline
  have hlines : d.annotationLines source = d.header :: (d.annotationLines source).tail := rfl
  have hne : (d.annotationLines source).tail.map String.toList ≠ [] := List.cons_ne_nil _ _
  rw [String.toList_intercalate, hlines, List.map_cons]
  exact splitOn_intercalate_cons d.header.toList hclean hne

/-! ### Carets -/

/-- What the last two lines of an annotated diagnostic show: a line of the source that holds the
boundary `p`, and `w` carets below it. -/
structure Underlines (d : Diagnostic) (source : String) (p : Nat) (before text : List Char)
    (w : Nat) : Prop where
  one_le : 1 ≤ w
  number : (d.position source).line = before.count '\n' + 1
  /-- The line stands behind its number, the carets behind blanks in its place and before their
  column. -/
  lines : (d.position source).column ≤ widestPadding + 1 →
    ∃ annotated earlier, d.annotate source = .ok annotated ∧
      annotated.toList.splitOn '\n' = earlier ++
        [(toString (d.position source).line ++ " | " ++ String.ofList text).toList,
          (repeated (toString (d.position source).line).length ' ' ++ " | " ++
            repeated ((d.position source).column - 1) ' ' ++ repeated w '^').toList]
  /-- What padding does not reach is not shown at all. -/
  beyond : widestPadding + 1 < (d.position source).column →
    d.annotate source = .error ⟨(d.position source).column⟩
  /-- The first caret stands below the character at the boundary. -/
  below : p < width (before ++ text) →
    ∃ front c rest, source.toList = front ++ c :: rest ∧ width front = p ∧
      text[(d.position source).column - 1]? = some c
  /-- The last caret does not stand behind the last character of the line. -/
  within : p < width (before ++ text) → (d.position source).column - 1 + w ≤ text.length
  /-- There is a caret for each character that the span covers on the line. -/
  covers : p < width (before ++ text) →
    ∀ covered, slice? source.toList d.span.start d.span.stop = some covered →
      w = min (max 1 covered.length) (text.length - ((d.position source).column - 1))

theorem annotate_of_le (h : (d.position source).column ≤ widestPadding + 1) :
    d.annotate source = .ok (String.intercalate "\n" (d.annotationLines source)) :=
  if_pos (Nat.sub_le_of_le_add h)

theorem annotate_of_lt (h : widestPadding + 1 < (d.position source).column) :
    d.annotate source = .error ⟨(d.position source).column⟩ :=
  if_neg (Nat.not_le.2 (Nat.lt_sub_of_add_lt h))

/-- The character at the boundary is the one behind the part of the line before it. -/
theorem exists_char {p : Nat} {before part text ending behind cs : List Char}
    (hline : LineAt cs p before text ending behind) (hp : p = width (before ++ part))
    (hshorter : width part < width text → part <+: text) (hlt : p < width (before ++ text)) :
    ∃ c more, text = part ++ c :: more ∧ cs = (before ++ part) ++ c :: (more ++ (ending ++ behind)) := by
  rw [hp, width_append, width_append] at hlt
  obtain ⟨more, hmore⟩ := hshorter (by omega)
  cases more with
  | nil =>
    rw [List.append_nil] at hmore
    rw [hmore] at hlt
    exact absurd hlt (Nat.lt_irrefl _)
  | cons c more =>
    refine ⟨c, more, hmore.symm, ?_⟩
    rw [hline.cut, ← hmore]
    simp

/-- The caret stands under the error: the last two lines of an annotated diagnostic show the line of
the source around the last boundary up to the beginning of its span, and carets from the character at
this boundary on. Only a diagnostic that padding does not reach has no annotated form. -/
theorem annotate_underlines (d : Diagnostic) (source : String) :
    ∃ p before text ending behind w,
      IsGreatest {b | IsBoundary source.toList b ∧ b ≤ min d.span.start (width source.toList)} p ∧
      LineAt source.toList p before text ending behind ∧ d.Underlines source p before text w := by
  obtain ⟨before, part, text, ending, behind, hfront, hline, htext, hplace, hshorter⟩ :=
    d.exists_lineText source
  have hgreatest := isGreatest_takeFitting source.toList d.span.start
  rw [hfront] at hgreatest
  have hchar := exists_char hline rfl hshorter
  have hcount : d.caretCount source =
      min (max 1 (((slice? source.toList d.span.start d.span.stop).map List.length).getD 1))
        (max 1 (text.length - part.length)) := by
    rw [caretCount, htext, hplace]
    rfl
  refine ⟨_, before, text, ending, behind, d.caretCount source, hgreatest, hline, ?_⟩
  constructor
  · rw [hcount]
    omega
  · rw [hplace]
  · intro hcolumn
    refine ⟨_, d.header.toList.splitOn '\n' ++ ((d.annotationLines source).tail.map String.toList).take 2,
      d.annotate_of_le source hcolumn, ?_⟩
    rw [d.splitOn_annotationLines source, ← htext, List.append_assoc]
    rfl
  · exact d.annotate_of_lt source
  · intro hlt
    obtain ⟨c, more, hmore, hsource⟩ := hchar hlt
    refine ⟨before ++ part, c, _, hsource, rfl, ?_⟩
    rw [hplace, hmore, Nat.add_sub_cancel, List.getElem?_append_right (Nat.le_refl _), Nat.sub_self]
    rfl
  · intro hlt
    obtain ⟨c, more, hmore, _⟩ := hchar hlt
    rw [hcount, hplace, hmore]
    simp only [List.length_append, List.length_cons]
    omega
  · intro hlt covered hcovered
    obtain ⟨c, more, hmore, _⟩ := hchar hlt
    rw [hcount, hplace, hmore, hcovered]
    simp only [Option.map_some, Option.getD_some, List.length_append, List.length_cons]
    omega

/-- In a long line the carets cannot be moved into place. -/
theorem annotate_beyond_padding :
    (refusal "bad" ⟨65536, 65537⟩).annotate (String.ofList (List.replicate 65537 'a')) =
      .error ⟨65537⟩ := by
  have hwidth : ∀ n, width (List.replicate n 'a') = n := by
    intro n
    induction n with
    | zero => rfl
    | succ n ih =>
      have hsize : 'a'.utf8Size = 1 := by decide
      rw [List.replicate_succ, width_cons, ih, hsize, Nat.add_comm]
  have hplace : (refusal "bad" ⟨65536, 65537⟩).position
      (String.ofList (List.replicate 65537 'a')) = ⟨1, 65537⟩ := by
    have hclean : '\n' ∉ List.replicate 65536 'a' := fun hmem =>
      absurd (List.mem_replicate.1 hmem).2 (by decide)
    have hafter := after_of_line (.inl rfl) hclean
    have hat := Position.ofOffset_append (List.replicate 65536 'a') ['a']
    rw [hwidth, ← List.replicate_succ'] at hat
    rw [position, String.toList_ofList]
    rw [List.nil_append, List.length_replicate] at hafter
    exact hat.trans hafter
  have hbeyond := (refusal "bad" ⟨65536, 65537⟩).annotate_of_lt
    (String.ofList (List.replicate 65537 'a'))
  rw [hplace] at hbeyond
  exact hbeyond (by decide)

end Diagnostic

end TaggedSql
