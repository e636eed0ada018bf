import TaggedSql.Proofs.Lockstep.Twins

/-!
# The layout of a source

How tokens are laid out in a source, and what comments stand between them, has no influence on what
is read from it. Two sources with the same kinds and texts of tokens give trees that differ only in
spans, or failures that differ only in their places.

* `Tree.Twins`, `Diagnostic.Twins`: results that differ only in places;
* `parse_of_same_tokens`: the results for two sources with the same tokens.
-/

namespace TaggedSql

/-- The kinds of the tokens of a source, with the texts that their spans cover. -/
def spellings (policy : OverflowPolicy) (source : String) : List (Kind × String) :=
  (tokenize policy source).map fun t => (t.kind, t.span.slice source)

/-- Two trees with the same root and the same lists, whose nodes differ only in their spans. -/
structure Tree.Twins (T U : List Token) (t u : Tree) : Prop where
  root : t.root = u.root
  arena : Arena.Twins T U t.arena u.arena

/-- Two diagnostics that differ only in their places, which are those of tokens with the same
number. -/
structure Diagnostic.Twins (T U : List Token) (d d' : Diagnostic) : Prop where
  stage : d.stage = d'.stage
  message : d.message = d'.message
  expected : d.expected = d'.expected
  found : d.found = d'.found
  place : ∃ (i : Nat) (t u : Token), T[i]? = some t ∧ U[i]? = some u ∧ d.span = t.span ∧
    d'.span = u.span

variable {T U : List Token}

theorem Failure.Twins.diagnostic {e f : Failure} (h : Failure.Twins T U e f) :
    Diagnostic.Twins T U e.diagnostic f.diagnostic := by
  cases h with
  | lexical p h =>
    obtain ⟨i, ht, hu⟩ := h.number
    exact ⟨rfl, rfl, rfl, rfl, i, _, _, ht, hu, rfl, rfl⟩
  | tooDeep limit h =>
    obtain ⟨i, ht, hu⟩ := h.number
    exact ⟨rfl, rfl, rfl, rfl, i, _, _, ht, hu, rfl, rfl⟩
  | @unexpected e t u h =>
    obtain ⟨i, ht, hu⟩ := h.number
    have hend : t.isEnd = u.isEnd := by rw [Token.isEnd, Token.isEnd, h.kind]
    have hdescribe : t.describe = u.describe := by
      rw [Token.describe, Token.describe, h.kind, h.text]
    rw [Failure.diagnostic, Failure.diagnostic, ← hend, ← hdescribe]
    split
    next => exact ⟨rfl, rfl, rfl, rfl, i, _, _, ht, hu, rfl, rfl⟩
    next => exact ⟨rfl, rfl, rfl, rfl, i, _, _, ht, hu, rfl, rfl⟩

/-- Tokens with the same kinds and texts are twins. -/
theorem twins_of_spellings {policy : OverflowPolicy} {source source' : String}
    (h : spellings policy source = spellings policy source') :
    Stream.Twins (tokenize policy source) (tokenize policy source') (Stream.ofSource policy source)
      (Stream.ofSource policy source') := by
  rw [spellings, spellings, map_slice_tokenize, map_slice_tokenize] at h
  exact .of_bare (tokenize_eq policy source) (tokenize_eq policy source') h

/-- Two sources with the same tokens, apart from their places, are both read or both refused. The
trees then differ only in spans, and the diagnostics only in their places. -/
theorem parse_of_same_tokens (settings : Settings) (source source' : String)
    (h : spellings settings.overflow source = spellings settings.overflow source') :
    (∃ t u, parse settings source = .ok t ∧ parse settings source' = .ok u ∧
        Tree.Twins (tokenize settings.overflow source) (tokenize settings.overflow source') t u) ∨
      ∃ e f, parse settings source = .error e ∧ parse settings source' = .error f ∧
        Diagnostic.Twins (tokenize settings.overflow source) (tokenize settings.overflow source')
          e.diagnostic f.diagnostic := by
  have houtcome := Lockstep.outcome_twins (twins_of_spellings h)
  generalize parse settings source = r at houtcome ⊢
  generalize parse settings source' = r' at houtcome ⊢
  cases houtcome with
  | ok htrees => exact .inl ⟨_, _, rfl, rfl, htrees.root, htrees.arena⟩
  | excused hfalse => exact hfalse.elim
  | failure htwins => exact .inr ⟨_, _, rfl, rfl, Failure.Twins.diagnostic htwins⟩

/-- Comments and line breaks between the words of a statement, and the two trees that are read. -/
theorem parse_of_same_tokens_comments :
    spellings .promote "DROP VIEW a" = spellings .promote "DROP /* b */ VIEW\n a -- c" ∧
      ∃ t u, parse {} "DROP VIEW a" = .ok t ∧ parse {} "DROP /* b */ VIEW\n a -- c" = .ok u ∧
        Tree.Twins (tokenize .promote "DROP VIEW a")
          (tokenize .promote "DROP /* b */ VIEW\n a -- c") t u := by
  have hspellings :
      spellings .promote "DROP VIEW a" = spellings .promote "DROP /* b */ VIEW\n a -- c" := by
    decide +kernel
  refine ⟨hspellings, ?_⟩
  rcases parse_of_same_tokens {} _ _ hspellings with h | ⟨e, _, he, _⟩
  · exact h
  · have hread : parse {} "DROP VIEW a" =
        .ok ⟨"DROP VIEW a", ⟨#[.tag .dropView, .name ⟨10, 11⟩, .list ⟨0, 2⟩], #[0, 1]⟩, 2⟩ := by
      decide +kernel
    rw [hread] at he
    cases he

end TaggedSql
