import Mathlib.Data.List.TakeWhile
import TaggedSql.Token.Gap
import TaggedSql.Token.Numeral

/-!
# What gaps are made of

A gap is filled with blank characters and comments. A filler is one of them: a blank character, a
line comment together with the newline that ends it, or a block comment. At the end of a source one
more thing can stand, a line comment that no newline ends.

* `Text.forall_of_isBlank`: what holds of the blank characters one by one; none continues a token;
* `Gap.blockEnd?_of_endsOnce`, `Gap.exists_of_blockEnd?`: where a block comment ends;
* `Gap.read_fillers`: fillers before a text are passed, whatever the text is;
* `Gap.isFilled_read`: what is passed is filled, up to an open line comment at the end of the source.
-/

namespace TaggedSql

open Text

/-! ### Blank characters -/

/-- What holds of the blank characters one by one holds of each. -/
theorem Text.forall_of_isBlank {p : Char → Bool}
    (h : ∀ r ∈ blankIntervals, ∀ k < 11, r.1 + k ≤ r.2 → p (Char.ofNat (r.1 + k)) = true)
    {b : Char} (hb : isBlank b = true) : p b = true := by
  obtain ⟨r, hr, hfirst, hlast⟩ := Interval.exists_mem_of_covers hb
  have hshort : ∀ r ∈ blankIntervals, r.2 < r.1 + 11 := by decide
  have hlt := hshort r hr
  obtain ⟨k, hk⟩ := Nat.exists_eq_add_of_le hfirst
  have hp := h r hr k (by omega) (by omega)
  rwa [← hk, Char.ofNat_toNat] at hp

namespace Lexeme

variable {b : Char}

/-- A blank character is none of those that are not blank. -/
theorem ne_of_isBlank (hb : isBlank b = true) {c : Char} (hc : isBlank c = false) : b ≠ c := by
  rintro rfl
  rw [hb] at hc
  cases hc

theorem continuesWord_of_isBlank (hb : isBlank b = true) : continuesWord b = false := by
  simpa using forall_of_isBlank (p := fun c => !continuesWord c) (by decide +kernel) hb

theorem startsWord_of_isBlank (hb : isBlank b = true) : startsWord b = false := by
  simpa using forall_of_isBlank (p := fun c => !startsWord c) (by decide +kernel) hb

theorem spoilsNumeral_of_isBlank (hb : isBlank b = true) : spoilsNumeral b = false := by
  simpa using forall_of_isBlank (p := fun c => !spoilsNumeral c) (by decide +kernel) hb

theorem isHexDigit_of_isBlank (hb : isBlank b = true) : isHexDigit b = false := by
  simpa using forall_of_isBlank (p := fun c => !isHexDigit c) (by decide +kernel) hb

theorem isDigit_of_isBlank (hb : isBlank b = true) : b.isDigit = false := by
  simpa using forall_of_isBlank (p := fun c => !c.isDigit) (by decide +kernel) hb

end Lexeme

/-! ### Block comments -/

namespace Gap

/-- With `*/` put behind it, the text holds `*/` only at its end. -/
def EndsOnce (body : List Char) : Prop :=
  ∀ front back, body ++ ['*', '/'] = front ++ '*' :: '/' :: back → back = []

theorem endsOnce_nil : EndsOnce [] := by
  intro front back h
  have hlength := congrArg List.length h
  simp only [List.nil_append, List.length_append, List.length_cons, List.length_nil] at hlength
  exact List.eq_nil_of_length_eq_zero (by omega)

/-- A further character before the text must not make up `*/` with the character behind it. -/
theorem endsOnce_cons {c : Char} {body : List Char} :
    EndsOnce (c :: body) ↔ ¬ (c = '*' ∧ (body ++ ['*', '/']).head? = some '/') ∧ EndsOnce body := by
  constructor
  · intro h
    refine ⟨?_, ?_⟩
    · rintro ⟨rfl, hhead⟩
      obtain ⟨back, hback⟩ := List.head?_eq_some_iff.1 hhead
      have hnil : back = [] := h [] back (by rw [List.cons_append, hback]; rfl)
      have hlength := congrArg List.length hback
      simp [hnil] at hlength
    · intro front back heq
      exact h (c :: front) back (by rw [List.cons_append, heq]; rfl)
  · rintro ⟨hfirst, hbody⟩ front back heq
    cases front with
    | nil =>
      obtain ⟨hc, hrest⟩ := List.cons.inj heq
      have hhead : (body ++ ['*', '/']).head? = some '/' := congrArg List.head? hrest
      exact absurd ⟨hc, hhead⟩ hfirst
    | cons d front => exact hbody front back (List.cons.inj heq).2

/-- The first character behind the body of a comment does not depend on what follows the comment. -/
theorem head?_append_close (body rest : List Char) :
    (body ++ '*' :: '/' :: rest).head? = (body ++ ['*', '/']).head? := by
  cases body <;> rfl

/-- A block comment ends where its body says, whatever follows. -/
theorem blockEnd?_of_endsOnce {body : List Char} (h : EndsOnce body) (rest : List Char) :
    blockEnd? (body ++ '*' :: '/' :: rest) = some (body ++ ['*', '/'], rest) := by
  induction body with
  | nil => rfl
  | cons c body ih =>
    obtain ⟨hfirst, hbody⟩ := endsOnce_cons.1 h
    obtain ⟨d, more, hmore⟩ : ∃ d more, body ++ '*' :: '/' :: rest = d :: more := by
      cases body with
      | nil => exact ⟨_, _, rfl⟩
      | cons d body => exact ⟨_, _, rfl⟩
    have hnot : ¬ (c = '*' ∧ d = '/') := by
      rintro ⟨hc, hd⟩
      refine hfirst ⟨hc, ?_⟩
      rw [← head?_append_close body rest, hmore, hd]
      rfl
    rw [List.cons_append, hmore, blockEnd?, if_neg hnot, ← hmore, ih hbody]
    rfl

/-- What is taken up to the first `*/` is a body that holds none, and `*/`. -/
theorem exists_of_blockEnd? {cs comment rest : List Char} (h : blockEnd? cs = some (comment, rest)) :
    ∃ body, comment = body ++ ['*', '/'] ∧ EndsOnce body := by
  fun_induction blockEnd? cs generalizing comment with
  | case1 => cases h
  | case2 => cases h
  | case3 c d cs hend =>
    cases h
    obtain ⟨rfl, rfl⟩ := hend
    exact ⟨[], rfl, endsOnce_nil⟩
  | case4 c d cs hend ih =>
    obtain ⟨⟨front, back⟩, hrec, heq⟩ := Option.map_eq_some_iff.1 h
    cases heq
    obtain ⟨body, rfl, hbody⟩ := ih hrec
    refine ⟨c :: body, rfl, endsOnce_cons.2 ⟨?_, hbody⟩⟩
    rintro ⟨hc, hhead⟩
    refine hend ⟨hc, ?_⟩
    have hall : (body ++ ['*', '/']) ++ back = d :: cs := append_of_blockEnd? hrec
    obtain ⟨more, hmore⟩ := List.head?_eq_some_iff.1 hhead
    rw [hmore] at hall
    exact (List.cons.inj hall).1.symm

end Gap

/-! ### Fillers -/

/-- One of the things that fill a gap. -/
inductive Filler where
  | blank (c : Char) (isBlank : Text.isBlank c = true)
  /-- A line comment, from its two hyphens through its newline. -/
  | line (body : List Char) (within : '\n' ∉ body)
  /-- A block comment. -/
  | block (body : List Char) (once : Gap.EndsOnce body)

namespace Filler

/-- The characters of a filler. -/
def text : Filler → List Char
  | blank c _ => [c]
  | line body _ => '-' :: '-' :: (body ++ ['\n'])
  | block body _ => '/' :: '*' :: (body ++ ['*', '/'])

/-- The characters of several fillers. -/
def texts (fs : List Filler) : List Char := fs.flatMap text

@[simp]
theorem texts_nil : texts [] = [] := rfl

@[simp]
theorem texts_cons (f : Filler) (fs : List Filler) : texts (f :: fs) = f.text ++ texts fs := rfl

end Filler

namespace Gap

theorem after_nil (g : Gap) : after [] g = g := by
  cases g <;> rfl

theorem after_after (front front' : List Char) (g : Gap) :
    after front (after front' g) = after (front ++ front') g := by
  cases g <;> simp [after]

theorem read_blank {c : Char} (h : isBlank c = true) (rest : List Char) :
    read (c :: rest) = after [c] (read rest) := by
  rw [read, if_pos h]

/-- A line comment is passed up to its end, which is a newline or the end of the source. -/
theorem read_line {body : List Char} (h : '\n' ∉ body) {rest : List Char}
    (hrest : ∀ c ∈ rest.head?, c = '\n') :
    read ('-' :: '-' :: (body ++ rest)) = after ('-' :: '-' :: body) (read rest) := by
  have hblank : isBlank '-' = false := by decide
  have hbody : ∀ c ∈ '-' :: body, decide (c ≠ '\n') = true := by
    intro c hc
    rcases List.mem_cons.1 hc with rfl | hc
    · decide
    · exact decide_eq_true fun heq => h (heq ▸ hc)
  have htake : ('-' :: (body ++ rest)).takeWhile (fun c => decide (c ≠ '\n')) = '-' :: body := by
    rw [← List.cons_append, List.takeWhile_append_of_pos hbody]
    cases rest with
    | nil => simp
    | cons c rest => simp [hrest c rfl]
  have hdrop : ('-' :: (body ++ rest)).dropWhile (fun c => decide (c ≠ '\n')) = rest := by
    rw [← List.cons_append, List.dropWhile_append_of_pos hbody]
    cases rest with
    | nil => rfl
    | cons c rest => simp [hrest c rfl]
  rw [read, if_neg (by simp [hblank]), if_pos ⟨rfl, rfl⟩, htake, hdrop]

theorem read_block {body : List Char} (h : EndsOnce body) (rest : List Char) :
    read ('/' :: '*' :: (body ++ '*' :: '/' :: rest)) =
      after ('/' :: '*' :: (body ++ ['*', '/'])) (read rest) := by
  have hblank : isBlank '/' = false := by decide
  have hend := blockEnd?_of_endsOnce h rest
  rw [read, if_neg (by simp [hblank]), if_neg (by simp), if_pos ⟨rfl, rfl⟩]
  split
  next hnone =>
    rw [List.tail_cons, hend] at hnone
    cases hnone
  next comment rest' hsome =>
    rw [List.tail_cons, hend] at hsome
    cases hsome
    rfl

/-- A filler is passed, whatever follows it. -/
theorem read_filler (f : Filler) (rest : List Char) :
    read (f.text ++ rest) = after f.text (read rest) := by
  cases f with
  | blank c h => exact read_blank h rest
  | line body h =>
    have hnewline : isBlank '\n' = true := by decide
    have hstop : ∀ c ∈ ('\n' :: rest).head?, c = '\n' := by simp
    have hread := read_line h hstop
    rw [read_blank hnewline, after_after] at hread
    simpa [Filler.text] using hread
  | block body h => simpa [Filler.text] using read_block h rest

/-- Fillers are passed, whatever follows them. -/
theorem read_fillers (fs : List Filler) (rest : List Char) :
    read (Filler.texts fs ++ rest) = after (Filler.texts fs) (read rest) := by
  induction fs with
  | nil => exact (after_nil _).symm
  | cons f fs ih => rw [Filler.texts_cons, List.append_assoc, read_filler, ih, after_after]

/-! ### What is passed -/

/-- A text that fillers make up. -/
def Filled (gap : List Char) : Prop := ∃ fs, gap = Filler.texts fs

/-- What can stand at the end of a source: fillers, and perhaps a line comment that no newline
ends. -/
def FilledToEnd (gap : List Char) : Prop :=
  ∃ fs tail, gap = Filler.texts fs ++ tail ∧
    (tail = [] ∨ ∃ body, tail = '-' :: '-' :: body ∧ '\n' ∉ body)

theorem filled_append (f : Filler) {gap : List Char} (h : Filled gap) : Filled (f.text ++ gap) := by
  obtain ⟨fs, rfl⟩ := h
  exact ⟨f :: fs, rfl⟩

theorem filledToEnd_append (f : Filler) {gap : List Char} (h : FilledToEnd gap) :
    FilledToEnd (f.text ++ gap) := by
  obtain ⟨fs, tail, rfl, htail⟩ := h
  exact ⟨f :: fs, tail, by simp, htail⟩

/-- What is passed before a token is filled; only at the end of the source a line comment can be
open. -/
def IsFilled : Gap → Prop
  | closed skipped [] => FilledToEnd skipped
  | closed skipped (_ :: _) => Filled skipped
  | unclosed skipped _ => Filled skipped

theorem isFilled_after (f : Filler) {g : Gap} (h : g.IsFilled) : (after f.text g).IsFilled := by
  cases g with
  | unclosed skipped comment => exact filled_append f h
  | closed skipped rest =>
    cases rest with
    | nil => exact filledToEnd_append f h
    | cons c cs => exact filled_append f h

/-- A line comment begins a gap: a newline follows, or the gap ends with the source. -/
theorem isFilled_line {cs : List Char}
    (h : ∀ rest : List Char, rest.length < cs.length → (read rest).IsFilled) :
    (after ('-' :: '-' :: cs.takeWhile (· ≠ '\n')) (read (cs.dropWhile (· ≠ '\n')))).IsFilled := by
  have hwithin : '\n' ∉ cs.takeWhile (· ≠ '\n') := by
    intro hmem
    simpa using List.mem_takeWhile_imp hmem
  cases hrest : cs.dropWhile (· ≠ '\n') with
  | nil =>
    rw [read]
    exact ⟨[], _, by simp, .inr ⟨_, rfl, hwithin⟩⟩
  | cons c rest =>
    have hc : c = '\n' := by
      have hnot := List.head?_dropWhile_not (fun x => decide (x ≠ '\n')) cs
      rw [hrest] at hnot
      simpa using hnot
    have hshort : rest.length < cs.length := by
      have hle := (List.dropWhile_sublist (fun x => decide (x ≠ '\n')) (l := cs)).length_le
      rw [hrest, List.length_cons] at hle
      omega
    subst hc
    have hnewline : isBlank '\n' = true := by decide
    have hfilled := isFilled_after (.line (cs.takeWhile (· ≠ '\n')) hwithin) (h rest hshort)
    rw [read_blank hnewline, after_after]
    simpa [Filler.text] using hfilled

/-- What is passed before a token is filled. -/
theorem isFilled_read (cs : List Char) : (read cs).IsFilled := by
  induction hlength : cs.length using Nat.strongRecOn generalizing cs with
  | ind n ih =>
    have hrec : ∀ rest : List Char, rest.length < cs.length → (read rest).IsFilled :=
      fun rest hlt => ih rest.length (hlength ▸ hlt) rest rfl
    cases cs with
    | nil =>
      rw [read]
      exact ⟨[], [], rfl, .inl rfl⟩
    | cons c cs =>
      rw [read]
      split
      next hblank => exact isFilled_after (.blank c hblank) (hrec cs (by simp))
      split
      next hline =>
        obtain ⟨rfl, hhead⟩ := hline
        obtain ⟨cs, rfl⟩ := List.head?_eq_some_iff.1 hhead
        have hshorter : ∀ rest : List Char, rest.length < cs.length → (read rest).IsFilled :=
          fun rest hlt => hrec rest (by simp only [List.length_cons]; omega)
        simpa using isFilled_line hshorter
      split
      next hblock =>
        obtain ⟨rfl, hhead⟩ := hblock
        obtain ⟨cs, rfl⟩ := List.head?_eq_some_iff.1 hhead
        split
        next => exact ⟨[], rfl⟩
        next comment rest hend =>
          obtain ⟨body, rfl, hbody⟩ := exists_of_blockEnd? hend
          have hall := congrArg List.length (append_of_blockEnd? hend)
          simp only [List.length_append, List.tail_cons] at hall
          exact isFilled_after (.block body hbody) (hrec rest (by simp; omega))
      exact ⟨[], rfl⟩

end Gap

end TaggedSql
