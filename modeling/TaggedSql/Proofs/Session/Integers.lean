import TaggedSql.Proofs.Statement.Selection
import Mathlib.Data.Int.ModEq
import Mathlib.Data.Nat.Digits.Defs

/-!
# The values of integers

Decimal digits are read as the integer they spell, whatever zeros they begin with, as far as a signed
64-bit integer holds it. The number `2 ^ 63` is decided by what stands before it: only a minus sign in
front of the operand makes an integer of it. Hexadecimal digits spell an integer modulo `2 ^ 64`.

* `Text.Denotes`: the number that digits spell in a base;
* `SelectsOnly`, `RefusedFor`: what becomes of a query of one column;
* `ReadsDecimals`, `ReadsSigned`, `ReadsHexadecimals`: the integers of a source, by the way they are
  written;
* `parse_reads_integers`: integers are read exactly, under either policy.
-/

namespace TaggedSql

open Text Lexeme

/-! ### Digits and their values -/

/-- The characters are digits in a base and spell a number, the most significant digit first. -/
structure Text.Denotes (base : Nat) (cs : List Char) (v : Nat) : Prop where
  full : cs ≠ []
  digits : ∀ c ∈ cs, (digitValue? c).any (· < base) = true
  value : Nat.ofDigits base (cs.reverse.map fun c => (digitValue? c).getD 0) = v

namespace Text

theorem isDigit_of_digitValue? {c : Char} {n : Nat} (h : digitValue? c = some n) (hn : n < 10) :
    c.isDigit = true := by
  unfold digitValue? at h
  split at h
  next hdecimal =>
    simp only [Char.isDigit, Bool.and_eq_true, decide_eq_true_eq]
    exact hdecimal
  next =>
    split at h
    next =>
      cases h
      omega
    next =>
      split at h
      next =>
        cases h
        omega
      next => cases h

variable {base : Nat} {cs : List Char} {v : Nat}

/-- Reading digits from the left gives the number that they are the digits of. -/
theorem ofDigits_eq_nat_ofDigits (base : Nat) (cs : List Char) :
    ofDigits base cs = Nat.ofDigits base (cs.reverse.map fun c => (digitValue? c).getD 0) := by
  rw [Nat.ofDigits_eq_foldr, List.foldr_map, List.foldr_reverse]
  show cs.foldl (fun n c => n * base + (digitValue? c).getD 0) 0 = _
  congr 1
  funext n c
  rw [Nat.cast_id, Nat.add_comm, Nat.mul_comm]

namespace Denotes

theorem ofDigits_eq (h : Denotes base cs v) : ofDigits base cs = v := by
  rw [ofDigits_eq_nat_ofDigits]
  exact h.value

/-- Each of the characters has a value below the base. -/
theorem exists_digit (h : Denotes base cs v) {c : Char} (hc : c ∈ cs) :
    ∃ n, digitValue? c = some n ∧ n < base := by
  obtain ⟨n, hn, hsmall⟩ := Option.any_eq_true _ _ |>.1 (h.digits c hc)
  exact ⟨n, hn, of_decide_eq_true hsmall⟩

theorem isDigit (h : Denotes 10 cs v) : ∀ c ∈ cs, c.isDigit = true := by
  intro c hc
  obtain ⟨n, hn, hsmall⟩ := h.exists_digit hc
  exact isDigit_of_digitValue? hn hsmall

theorem isHexDigit (h : Denotes 16 cs v) : ∀ c ∈ cs, isHexDigit c = true := by
  intro c hc
  obtain ⟨n, hn, _⟩ := h.exists_digit hc
  rw [Text.isHexDigit, hn]
  rfl

/-- The lexeme of decimal digits; the policy decides about the kind. -/
theorem readsBefore (h : Denotes 10 cs v) (policy : OverflowPolicy) :
    (plain (integerKind policy cs) cs []).ReadsBefore policy [] :=
  readsBefore_digits h.full h.isDigit

end Denotes

end Text

/-! ### The kinds of decimal digits -/

section Kinds

variable {d : List Char} {v : Nat}

theorem integerKind_below (hd : Denotes 10 d v) (hv : v < 2 ^ 63) (policy : OverflowPolicy) :
    integerKind policy d = .integer (Int64.ofNat v) := by
  have hnumber : decimalNumber d = v := hd.ofDigits_eq
  unfold integerKind
  rw [hnumber]
  exact if_pos hv

theorem integerKind_least (hd : Denotes 10 d (2 ^ 63)) (policy : OverflowPolicy) :
    integerKind policy d = .leastMagnitude := by
  have hnumber : decimalNumber d = 2 ^ 63 := hd.ofDigits_eq
  unfold integerKind
  rw [hnumber]
  rfl

theorem integerKind_reject (hd : Denotes 10 d v) (hv : 2 ^ 63 < v) :
    integerKind .reject d = .problem (.integerRange d) := by
  have hnumber : decimalNumber d = v := hd.ofDigits_eq
  unfold integerKind
  rw [hnumber]
  show (if v < 2 ^ 63 then _ else if v = 2 ^ 63 then _ else _ : Kind) = _
  rw [if_neg (by omega), if_neg (by omega)]

theorem integerKind_promote (hd : Denotes 10 d v) (hv : 2 ^ 63 < v) :
    integerKind .promote d = if (Binary64.ofDecimal v 0).isFinite then
      .float (Binary64.ofDecimal v 0) else .problem (.floatRange d) := by
  have hnumber : decimalNumber d = v := hd.ofDigits_eq
  unfold integerKind floatKind
  rw [hnumber]
  show (if v < 2 ^ 63 then _ else if v = 2 ^ 63 then _ else _ : Kind) = _
  rw [if_neg (by omega), if_neg (by omega)]

end Kinds

/-! ### Queries of one column -/

/-- The source is read as a query of one column with the datum. -/
def SelectsOnly (settings : Settings) (source : String) (d : Datum) : Prop :=
  ∃ tree, parse settings source = .ok tree ∧ tree.datum = .tagged .select [.list [d]]

/-- The source is refused for the way a token is spelled. -/
def RefusedFor (settings : Settings) (source : String) (p : Problem) : Prop :=
  ∃ token, parse settings source = .error (.lexical p token)

/-- Decimal digits alone behind the word `SELECT`. -/
structure ReadsDecimals (settings : Settings) : Prop where
  below {d : List Char} {v : Nat} (hd : Denotes 10 d v) (hv : v < 2 ^ 63) :
    ∃ n : Int64, n.toInt = v ∧ SelectsOnly settings ("SELECT " ++ String.ofList d) (.integer n)
  least_promoted {d : List Char} (hd : Denotes 10 d (2 ^ 63)) (h : settings.overflow = .promote) :
    SelectsOnly settings ("SELECT " ++ String.ofList d) (.float Binary64.twoPow63)
  least_rejected {d : List Char} (hd : Denotes 10 d (2 ^ 63)) (h : settings.overflow = .reject) :
    RefusedFor settings ("SELECT " ++ String.ofList d) (.integerRange d)
  above_promoted {d : List Char} {v : Nat} (hd : Denotes 10 d v) (hv : 2 ^ 63 < v)
    (h : settings.overflow = .promote) (hfinite : (Binary64.ofDecimal v 0).isFinite = true) :
    SelectsOnly settings ("SELECT " ++ String.ofList d) (.float (Binary64.ofDecimal v 0))
  above_infinite {d : List Char} {v : Nat} (hd : Denotes 10 d v) (hv : 2 ^ 63 < v)
    (h : settings.overflow = .promote) (hinfinite : (Binary64.ofDecimal v 0).isFinite = false) :
    RefusedFor settings ("SELECT " ++ String.ofList d) (.floatRange d)
  above_rejected {d : List Char} {v : Nat} (hd : Denotes 10 d v) (hv : 2 ^ 63 < v)
    (h : settings.overflow = .reject) :
    RefusedFor settings ("SELECT " ++ String.ofList d) (.integerRange d)

/-- The fillers between a minus sign and the digits behind it. -/
def signFillers : Option Separator → List Filler
  | none => []
  | some s => s.fillers

/-- Decimal digits behind a minus sign, which stands alone or behind an operand. -/
structure ReadsSigned (settings : Settings) : Prop where
  below {d : List Char} {v : Nat} (hd : Denotes 10 d v) (hv : v < 2 ^ 63) (gap : Option Separator) :
    ∃ n : Int64, n.toInt = v ∧
      SelectsOnly settings ("SELECT -" ++ String.ofList (Filler.texts (signFillers gap) ++ d))
        (.tagged .minus [.integer n])
  least {d : List Char} (hd : Denotes 10 d (2 ^ 63)) (gap : Option Separator) :
    ∃ n : Int64, n.toInt = -2 ^ 63 ∧
      SelectsOnly settings ("SELECT -" ++ String.ofList (Filler.texts (signFillers gap) ++ d))
        (.integer n)
  behind_promoted {d : List Char} (hd : Denotes 10 d (2 ^ 63)) {a : Lexeme} {e : Datum}
    (ha : a.ReadsBefore .promote [])
    (he : a.kind.operand? .promote (String.ofList a.body) = some e)
    (h : settings.overflow = .promote) :
    SelectsOnly settings ("SELECT " ++ String.ofList a.taken ++ " - " ++ String.ofList d)
      (.tagged .minus [e, .float Binary64.twoPow63])
  behind_rejected {d : List Char} (hd : Denotes 10 d (2 ^ 63)) {a : Lexeme} {e : Datum}
    (ha : a.ReadsBefore .promote [])
    (he : a.kind.operand? .promote (String.ofList a.body) = some e)
    (h : settings.overflow = .reject) :
    ∃ digits, RefusedFor settings
      ("SELECT " ++ String.ofList a.taken ++ " - " ++ String.ofList d) (.integerRange digits)

/-- Hexadecimal digits alone behind the word `SELECT`. -/
structure ReadsHexadecimals (settings : Settings) : Prop where
  short {mark : Char} (hmark : mark = 'x' ∨ mark = 'X') {h : List Char} {u : Nat}
    (hh : Denotes 16 h u) (hshort : h.length ≤ 16) :
    ∃ n : Int64, n.toInt ≡ u [ZMOD 2 ^ 64] ∧
      SelectsOnly settings ("SELECT " ++ String.ofList ('0' :: mark :: h)) (.integer n)
  long {mark : Char} (hmark : mark = 'x' ∨ mark = 'X') {h : List Char} {u : Nat}
    (hh : Denotes 16 h u) (hlong : 16 < h.length) :
    RefusedFor settings ("SELECT " ++ String.ofList ('0' :: mark :: h)) (.hexTooLarge h)

/-! ### Decimal digits -/

variable {settings : Settings}

theorem taken_plain (kind : Kind) (body : List Char) : (plain kind body []).taken = body := by
  simp [taken, plain]

/-- A lexeme without delimiters that is an operand. -/
theorem selectsOnly_plain (hdepth : 2 ≤ settings.maxDepth) {kind : Kind} {body : List Char}
    (hx : (plain kind body []).ReadsBefore settings.overflow []) {e : Datum}
    (he : kind.operand? settings.overflow (String.ofList body) = some e) :
    SelectsOnly settings ("SELECT " ++ String.ofList body) e := by
  obtain ⟨tree, id, hparse, _, hselects⟩ := selects_operand hdepth hx he
  rw [taken_plain] at hparse
  exact ⟨tree, hparse, hselects.datum⟩

/-- A lexeme without delimiters that is misspelled. -/
theorem refusedFor_plain (hdepth : 2 ≤ settings.maxDepth) {p : Problem} {body : List Char}
    (hx : (plain (.problem p) body []).ReadsBefore settings.overflow []) :
    RefusedFor settings ("SELECT " ++ String.ofList body) p := by
  obtain ⟨token, hparse⟩ := refuses_problem hdepth hx rfl
  rw [taken_plain] at hparse
  exact ⟨token, hparse⟩

theorem readsDecimals (hdepth : 2 ≤ settings.maxDepth) : ReadsDecimals settings where
  below {d v} hd hv := by
    have hlexeme := hd.readsBefore settings.overflow
    rw [integerKind_below hd hv] at hlexeme
    exact ⟨Int64.ofNat v, Int64.toInt_ofNat_of_lt hv, selectsOnly_plain hdepth hlexeme rfl⟩
  least_promoted {d} hd h := by
    have hlexeme := hd.readsBefore settings.overflow
    rw [integerKind_least hd] at hlexeme
    refine selectsOnly_plain hdepth hlexeme ?_
    rw [h]
    rfl
  least_rejected {d} hd h := by
    have hlexeme := hd.readsBefore settings.overflow
    rw [integerKind_least hd] at hlexeme
    obtain ⟨token, hparse⟩ := refuses_least hdepth h hlexeme rfl
    rw [taken_plain] at hparse
    exact ⟨token, hparse⟩
  above_promoted {d v} hd hv h hfinite := by
    have hlexeme := hd.readsBefore .promote
    rw [integerKind_promote hd hv, if_pos hfinite, ← h] at hlexeme
    exact selectsOnly_plain hdepth hlexeme rfl
  above_infinite {d v} hd hv h hinfinite := by
    have hlexeme := hd.readsBefore .promote
    rw [integerKind_promote hd hv, hinfinite, ← h] at hlexeme
    exact refusedFor_plain hdepth hlexeme
  above_rejected {d v} hd hv h := by
    have hlexeme := hd.readsBefore .reject
    rw [integerKind_reject hd hv, ← h] at hlexeme
    exact refusedFor_plain hdepth hlexeme

/-! ### Minus signs -/

/-- A minus sign is a token of its own before digits and before what may stand between. -/
theorem readsBefore_sign {d : List Char} {v : Nat} (hd : Denotes 10 d v) (gap : Option Separator)
    (policy : OverflowPolicy) :
    minusSign.ReadsBefore policy (Filler.texts (signFillers gap) ++ d) := by
  cases gap with
  | none =>
    obtain ⟨c, cs, rfl⟩ := List.exists_cons_of_ne_nil hd.full
    have hc : c ≠ '-' := ne_of_isDigit (hd.isDigit c List.mem_cons_self) (by decide)
    exact readsBefore_minus hc cs
  | some s =>
    obtain ⟨first, hblank, more⟩ := s
    have hfirst : first ≠ '-' := by
      rintro rfl
      revert hblank
      decide
    exact readsBefore_minus hfirst _

theorem readsSigned (hdepth : 3 ≤ settings.maxDepth) : ReadsSigned settings where
  below {d v} hd hv gap := by
    have hlexeme := hd.readsBefore settings.overflow
    rw [integerKind_below hd hv] at hlexeme
    have hsign := readsBefore_sign hd gap settings.overflow
    rw [← taken_plain (.integer (Int64.ofNat v)) d] at hsign
    obtain ⟨tree, id, hparse, _, hselects⟩ :=
      selects_negated hdepth hsign hlexeme Kind.noConfusion rfl
    rw [taken_plain] at hparse
    exact ⟨Int64.ofNat v, Int64.toInt_ofNat_of_lt hv, tree, hparse, hselects.datum⟩
  least {d} hd gap := by
    have hlexeme := hd.readsBefore settings.overflow
    rw [integerKind_least hd] at hlexeme
    have hsign := readsBefore_sign hd gap settings.overflow
    rw [← taken_plain .leastMagnitude d] at hsign
    obtain ⟨tree, id, hparse, _, hselects⟩ := selects_least (by omega) hsign hlexeme rfl
    rw [taken_plain] at hparse
    exact ⟨Int64.minValue, by decide, tree, hparse, hselects.datum⟩
  behind_promoted {d} hd {a e} ha he h := by
    have hlexeme := hd.readsBefore settings.overflow
    rw [integerKind_least hd] at hlexeme
    rw [← h] at ha he
    obtain ⟨tree, id, hparse, hselects⟩ := selects_difference hdepth ha he hlexeme
      (d := .float Binary64.twoPow63) (by rw [h]; rfl)
    rw [taken_plain] at hparse
    exact ⟨tree, hparse, hselects.datum⟩
  behind_rejected {d} hd {a e} ha he h := by
    -- The operand before the sign may be refused too, so both are read as under the other policy.
    have hlexeme := hd.readsBefore .promote
    rw [integerKind_least hd] at hlexeme
    obtain ⟨digits, token, hparse⟩ := refuses_difference hdepth h ha he hlexeme rfl
    rw [taken_plain] at hparse
    exact ⟨digits, token, hparse⟩

/-! ### Hexadecimal digits -/

/-- An integer of 64 bits is congruent to the number that it is made of. -/
theorem toInt_ofNat_modEq (u : Nat) : (Int64.ofNat u).toInt ≡ u [ZMOD 2 ^ 64] := by
  rw [Int64.toInt_ofNat']
  exact Int.bmod_emod

theorem readsHexadecimals (hdepth : 2 ≤ settings.maxDepth) : ReadsHexadecimals settings where
  short {mark} hmark {h u} hh hshort := by
    have hlexeme := readsBefore_hexadecimal settings.overflow hmark hh.full hh.isHexDigit hshort
    have hnumber : hexNumber h = u := hh.ofDigits_eq
    rw [hnumber] at hlexeme
    exact ⟨Int64.ofNat u, toInt_ofNat_modEq u, selectsOnly_plain hdepth hlexeme rfl⟩
  long {mark} hmark {h u} hh hlong := by
    have hlexeme := readsBefore_long_hexadecimal settings.overflow hmark hh.isHexDigit hlong
    exact refusedFor_plain hdepth hlexeme

/-- Integers are read exactly, under either policy: decimal digits as what they spell, with the number
`2 ^ 63` an integer only behind the minus sign of an operand, and hexadecimal digits modulo `2 ^ 64`. -/
theorem parse_reads_integers (settings : Settings) (hdepth : 3 ≤ settings.maxDepth) :
    ReadsDecimals settings ∧ ReadsSigned settings ∧ ReadsHexadecimals settings :=
  ⟨readsDecimals (by omega), readsSigned hdepth, readsHexadecimals (by omega)⟩

/-- The number `2 ^ 63` with zeros before it: behind the minus sign of an operand and a comment, and
behind an operand and a minus sign. The greatest number of sixteen hexadecimal digits. -/
theorem parse_reads_integers_least :
    (∃ n : Int64, n.toInt = -2 ^ 63 ∧
      SelectsOnly ⟨128, .reject⟩ "SELECT - --\n009223372036854775808" (.integer n)) ∧
    (∃ digits, RefusedFor ⟨128, .reject⟩ "SELECT ? - 009223372036854775808" (.integerRange digits)) ∧
    ∃ n : Int64, n.toInt ≡ (2 ^ 64 - 1 : Nat) [ZMOD 2 ^ 64] ∧
      SelectsOnly ⟨128, .reject⟩ "SELECT 0XffffffffffffFFFF" (.integer n) := by
  obtain ⟨_, hsigned, hhexadecimals⟩ := parse_reads_integers ⟨128, .reject⟩ (by decide)
  have hdigits : Denotes 10 "009223372036854775808".toList (2 ^ 63) :=
    ⟨by decide, List.all_eq_true.1 (by decide), by decide⟩
  have hhex : Denotes 16 "ffffffffffffFFFF".toList (2 ^ 64 - 1) :=
    ⟨by decide, List.all_eq_true.1 (by decide), by decide⟩
  have hmark : (plain (.parameter false) ['?'] []).ReadsBefore .promote [] :=
    Spelling.unnamed.alone.readsBefore
  have hleast := hsigned.least hdigits (some ⟨' ', by decide, [.line [] (by decide)]⟩)
  have hbehind := hsigned.behind_rejected hdigits hmark rfl rfl
  have hsource : "SELECT -" ++ String.ofList (Filler.texts (signFillers
      (some ⟨' ', by decide, [.line [] (by decide)]⟩)) ++ "009223372036854775808".toList) =
        "SELECT - --\n009223372036854775808" := by decide +kernel
  have hdifference : "SELECT " ++ String.ofList (plain (.parameter false) ['?'] []).taken ++ " - " ++
      String.ofList "009223372036854775808".toList = "SELECT ? - 009223372036854775808" := by
    decide +kernel
  have hlast := hhexadecimals.short (.inr rfl) hhex (by decide)
  have hhexadecimal : "SELECT " ++ String.ofList ('0' :: 'X' :: "ffffffffffffFFFF".toList) =
      "SELECT 0XffffffffffffFFFF" := by decide +kernel
  rw [hsource] at hleast
  rw [hdifference] at hbehind
  rw [hhexadecimal] at hlast
  exact ⟨hleast, hbehind, hlast⟩

end TaggedSql
