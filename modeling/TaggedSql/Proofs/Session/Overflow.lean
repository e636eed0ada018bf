import TaggedSql.Proofs.Ledger.Floats
import TaggedSql.Proofs.Session.Script

/-!
# The policy for great integers

The rejecting policy only restricts the promoting one. Two runs under the two policies meet the same
tokens up to the first integer that the rejecting policy refuses: there the run under that policy
fails, and says why.

* `Failure.OutOfRange`: why the rejecting policy refuses an integer;
* `Lockstep.policies`: the lockstep of the runs under the two policies;
* `Restricts`: one reading of a source restricts another one;
* `parse_reject_restricts`: the rejecting policy restricts the promoting one, and double-precision
  numbers are those with a fraction or an exponent.
-/

namespace TaggedSql

open Text

/-- A run of decimal digits in the source that spells `2 ^ 63` or a greater number is refused. -/
inductive Failure.OutOfRange (source : String) : Failure → Prop where
  | mk {t : Token} (htext : t.span.slice source = t.text)
      (hfrom : DecimalFrom (2 ^ 63) t.text.toList) :
      OutOfRange source (.lexical (.integerRange t.text.toList) t)

/-- The diagnostic spells the integer out. -/
theorem Failure.OutOfRange.exists_span {source : String} {e : Failure} (h : e.OutOfRange source) :
    ∃ span, e.diagnostic = .lexical ("Integer literal out of range: " ++ span.slice source) span ∧
      DecimalFrom (2 ^ 63) (span.slice source).toList := by
  cases h with
  | @mk t htext hfrom =>
    refine ⟨t.span, ?_, ?_⟩
    · show Diagnostic.lexical ("Integer literal out of range: " ++ String.ofList t.text.toList) t.span =
        _
      rw [String.ofList_toList, htext]
    · rwa [htext]

/-! ### Two runs -/

theorem Kind.isSought_floatKind (text digits : List Char) (exponent : Int) :
    (Lexeme.floatKind text digits exponent).isSought = false := by
  unfold Lexeme.floatKind
  dsimp only
  split <;> rfl

/-- The tokens that are ahead under the two policies, with the texts that their spans cover. -/
structure Stream.Weighed (source : String) (s t : Stream) : Prop where
  ahead : List.Forall₂ Token.Weighed s.ahead t.ahead
  stop : s.stop = t.stop
  slice : ∀ u ∈ s.rest, u.span.slice source = u.text

/-- Both runs see the same token. -/
structure Stream.Level (source : String) (s t : Stream) : Prop extends Stream.Weighed source s t where
  current : s.current = t.current

namespace Stream.Weighed

variable {source : String} {s t : Stream}

/-- The streams of a source under the two policies. -/
theorem ofSource (source : String) :
    Stream.Weighed source (Stream.ofSource .reject source) (Stream.ofSource .promote source) := by
  have htokens := forall₂_weighed_tokenize source
  rw [tokenize_eq, tokenize_eq] at htokens
  obtain ⟨hahead, hend⟩ := Stream.forall₂_of_rest htokens
  refine ⟨hahead, congrArg Span.stop hend.span.symm, fun u hu => ?_⟩
  have hmem : u ∈ tokenize .reject source := by
    rw [tokenize_eq]
    exact hu
  exact slice_of_mem_tokenize hmem

theorem peek (h : Stream.Weighed source s t) (n : Nat) : (s.peek n).Weighed (t.peek n) := by
  refine forall₂_peek h.ahead ?_ n
  rw [h.stop]
  exact .refl rfl

theorem advance (h : Stream.Weighed source s t) : Stream.Weighed source s.advance t.advance where
  ahead := forall₂_advance h.ahead
  stop := h.stop
  slice u hu := by
    refine h.slice u ?_
    rcases List.mem_append.1 hu with hu | hu
    · exact List.mem_append_left _ (List.mem_of_mem_tail hu)
    · exact List.mem_append_right _ hu

theorem slice_current (h : Stream.Weighed source s t) :
    s.current.span.slice source = s.current.text :=
  h.slice _ (List.mem_of_head? s.head?_rest)

/-- Behind the token at the front no rule tells the two policies apart. -/
theorem ahead_peek (h : Stream.Weighed source s t) (n : Nat) :
    (s.peek n).kind.AlikeAhead (t.peek n).kind := by
  rcases (h.peek n).kind.promoted.eq_or with hsame | ⟨hs, ht, _⟩
  · exact .inl hsame
  · rw [hs, ht]
    exact .inr ⟨rfl, Kind.isSought_floatKind _ _ _⟩

/-- Where the runs go on they see the same token, or the first one meets an integer that it refuses. -/
theorem meet (h : Stream.Weighed source s t) :
    Stream.Meet (Stream.Level source) (Failure.OutOfRange source) Eq s t := by
  have hcurrent : s.current.Weighed t.current := h.peek 0
  rcases hcurrent.kind.promoted.eq_or with hsame | ⟨hrefused, _, hfrom⟩
  · have htoken := hcurrent.eq_of_kind hsame
    by_cases hp : ∃ p, s.current.kind = .problem p
    · obtain ⟨p, hp⟩ := hp
      exact .failure hp (hsame ▸ hp) (congrArg (Failure.lexical p) htoken)
    · have hspelled : ∀ p, s.current.kind ≠ .problem p := fun p h => hp ⟨p, h⟩
      exact .goOn ⟨h, htoken⟩ hspelled (hsame ▸ hspelled)
  · exact .excused hrefused (.mk h.slice_current hfrom)

end Stream.Weighed

namespace Lockstep

/-- The run under the rejecting policy beside the one under the promoting policy. -/
def policies (source : String) : Lockstep where
  left := .reject
  right := .promote
  stream := Stream.Level source
  arena := Eq
  span := Eq
  node := Eq
  excused := Failure.OutOfRange source
  failure := Eq
  front h := .inl (congrArg Token.kind h.current)
  text h _ := congrArg Token.text h.current
  frontSpan h _ := congrArg Token.span h.current
  second h _ := h.toWeighed.ahead_peek 1
  third h _ _ := h.toWeighed.ahead_peek 2
  advance h _ := h.toWeighed.advance.meet
  unexpected e h := .inr (congrArg (Failure.unexpected e) h.current)
  promote h := nomatch h
  range := by
    intro s t _ h hkind
    exact .inl (.mk h.toWeighed.slice_current ((h.toWeighed.peek 0).kind.least hkind))
  join := join_same
  push := push_same
  pushList := pushList_same

theorem whole_policies {source : String} : (policies source).Whole where
  kind h := congrArg Token.kind h.current
  advance h _ := h.toWeighed.advance.meet
  empty := rfl

open Statement

theorem contexts_policies (source : String) (depth n : Nat) :
    (policies source).Contexts (context ⟨depth, .reject⟩) (context ⟨depth, .promote⟩) n := by
  have hdeep : ∀ entry n, (policies source).Follows n (fun _ => true)
      (enter ⟨depth, .reject⟩ 0 entry) (enter ⟨depth, .promote⟩ 0 entry) Eq :=
    follows_enter_zero fun s t hst => .inr (congrArg (Failure.tooDeep depth) hst.current)
  have hcontexts := contexts_enter (L := policies source) rfl rfl hdeep depth n
  rwa [Nat.zero_add] at hcontexts

theorem Trees.eq_of_policies {source : String} {t u : Tree}
    (h : (policies source).Trees source source t u) : t = u := by
  have hheedless : (heedless .reject).Trees source source t u := ⟨h.left, h.right, h.arena, h.root⟩
  exact hheedless.eq

/-- What becomes of a source under the two policies. -/
theorem outcome_policies (depth : Nat) (source : String) :
    (policies source).Outcome Eq (parse ⟨depth, .reject⟩ source) (parse ⟨depth, .promote⟩ source) ∧
      (policies source).Outcome Eq (parseScript ⟨depth, .reject⟩ source)
        (parseScript ⟨depth, .promote⟩ source) := by
  have hcontexts := contexts_policies source depth ((Stream.ofSource .reject source).size + 1)
  have hmeet := (Stream.Weighed.ofSource source).meet
  constructor
  · refine (outcome_parse whole_policies hcontexts hmeet (Nat.lt_succ_self _)).imp fun t u h => ?_
    exact h.eq_of_policies
  · refine (outcome_parseScript whole_policies hcontexts hmeet (Nat.lt_succ_self _)).imp
      fun ts us h => ?_
    rw [← List.forall₂_eq_eq_eq]
    exact h.imp fun _ _ => Trees.eq_of_policies

end Lockstep

/-! ### What the rejecting policy restricts -/

/-- One reading of a source restricts another one: what it gives the other gives too, and it fails
alone only at an integer of `2 ^ 63` or more, which its diagnostic spells out. -/
structure Restricts {α : Type} (source : String) (r r' : Except Failure α) : Prop where
  ok : ∀ a, r = .ok a → r' = .ok a
  error : ∀ e a, r = .error e → r' = .ok a →
    ∃ span, e.diagnostic = .lexical ("Integer literal out of range: " ++ span.slice source) span ∧
      DecimalFrom (2 ^ 63) (span.slice source).toList

theorem restricts_of_outcome {α : Type} {source : String} {r r' : Except Failure α}
    (h : (Lockstep.policies source).Outcome Eq r r') : Restricts source r r' := by
  constructor
  · intro a ha
    subst ha
    cases h with
    | ok hab => rw [hab]
  · intro e a he ha
    subst he ha
    cases h with
    | excused he => exact he.exists_span

open Rule Arena Statement

/-- Under the rejecting policy the double-precision numbers of a tree are the numbers of its source
that have a fraction or an exponent. -/
theorem floats_of_parse {depth : Nat} {source : String} {t : Tree}
    (h : parse ⟨depth, .reject⟩ source = .ok t) :
    (t.form t.root).floats = t.arena.floats ∧
      t.arena.floats = (tokenize .reject source).countP Token.isScaled := by
  obtain ⟨s', hsingle⟩ := Session.run_eq_ok h
  obtain ⟨s₁, htree, hsilent, hend⟩ := exists_of_single hsingle
  obtain ⟨hbelow, hfloats⟩ := floats_of_tree rfl htree rfl
  have hsuffix := hsilent.suffix.trans (exists_of_tree htree sound_empty).2.1.suffix
  -- Only the end of the source is left behind the tree.
  have hrest : Token.floats s₁.stream.rest ≤ 0 := by
    have hnone := hsilent.floats_le
    rwa [Stream.rest_eq_single (fun _ => isEnd_of_mem_ahead) hsuffix hend] at hnone
  rw [countP_isScaled_tokenize, tokenize_eq]
  refine ⟨hbelow, ?_⟩
  rw [Nat.le_zero.1 hrest] at hfloats
  exact hfloats

/-- The rejecting policy restricts the promoting one, for statements and for scripts. What it reads
has a double-precision number for each number that is written with a fraction or an exponent, and no
other. -/
theorem parse_reject_restricts (depth : Nat) (source : String) :
    Restricts source (parse ⟨depth, .reject⟩ source) (parse ⟨depth, .promote⟩ source) ∧
      Restricts source (parseScript ⟨depth, .reject⟩ source)
        (parseScript ⟨depth, .promote⟩ source) ∧
      ∀ t, parse ⟨depth, .reject⟩ source = .ok t →
        (t.form t.root).floats = (tokenize .reject source).countP Token.isScaled ∧
          t.arena.floats = (tokenize .reject source).countP Token.isScaled := by
  obtain ⟨hparse, hscript⟩ := Lockstep.outcome_policies depth source
  refine ⟨restricts_of_outcome hparse, restricts_of_outcome hscript, fun t h => ?_⟩
  obtain ⟨hbelow, hcount⟩ := floats_of_parse h
  exact ⟨hbelow.trans hcount, hcount⟩

/-- The least integer and numbers with a fraction or an exponent under the rejecting policy, and an
integer that only the promoting policy reads. -/
theorem parse_reject_restricts_least :
    (∃ t, parse ⟨128, .reject⟩ "SELECT -9223372036854775808, .5, 2e3" = .ok t ∧
      parse ⟨128, .promote⟩ "SELECT -9223372036854775808, .5, 2e3" = .ok t ∧
      (t.form t.root).floats = 2) ∧
      ∃ e span, parse ⟨128, .reject⟩ "SELECT 9223372036854775808" = .error e ∧
        e.diagnostic = .lexical ("Integer literal out of range: " ++
          span.slice "SELECT 9223372036854775808") span ∧
        DecimalFrom (2 ^ 63) (span.slice "SELECT 9223372036854775808").toList := by
  constructor
  · have hread : (parse ⟨128, .reject⟩ "SELECT -9223372036854775808, .5, 2e3").toOption.isSome =
        true := by decide +kernel
    have hcount : (tokenize .reject "SELECT -9223372036854775808, .5, 2e3").countP Token.isScaled =
        2 := by decide +kernel
    obtain ⟨t, ht⟩ := Option.isSome_iff_exists.1 hread
    have hparse := eq_ok_of_toOption ht
    obtain ⟨hrestricts, _, hfloats⟩ := parse_reject_restricts 128 _
    exact ⟨t, hparse, hrestricts.ok t hparse, (hfloats t hparse).1.trans hcount⟩
  · have hread : (parse ⟨128, .promote⟩ "SELECT 9223372036854775808").toOption.isSome = true := by
      decide +kernel
    have hrefused : (parse ⟨128, .reject⟩ "SELECT 9223372036854775808").toOption = none := by
      decide +kernel
    obtain ⟨t, ht⟩ := Option.isSome_iff_exists.1 hread
    cases hparse : parse ⟨128, .reject⟩ "SELECT 9223372036854775808" with
    | ok u =>
      rw [hparse] at hrefused
      cases hrefused
    | error e =>
      obtain ⟨span, hspan⟩ :=
        (parse_reject_restricts 128 _).1.error e t hparse (eq_ok_of_toOption ht)
      exact ⟨e, span, rfl, hspan⟩

end TaggedSql
