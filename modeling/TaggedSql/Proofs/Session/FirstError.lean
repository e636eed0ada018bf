import TaggedSql.Proofs.Session.Script
import TaggedSql.Proofs.Token.Source

/-!
# The first error of a source

A rule looks at the spelling of a token when it takes the token before it, so no misspelled token is
ever passed. A source that is read has none, and one that is refused is refused at its first
misspelled token or before it.

* `Blames`: where the blame for a refusal is put, and what is said about the token there;
* `Respects`: what a result says about the spelling of a source;
* `parse_respects_spelling`: this holds of statements and of scripts.
-/

namespace TaggedSql

/-- The tokens of a source before which none is misspelled. -/
def Reached (T : List Token) (t : Token) : Prop :=
  ∃ i : Nat, T[i]? = some t ∧ ∀ u ∈ T.take i, u.isProblem = false

/-- Where the blame for a refusal is put, and what is said about the token there. -/
structure Blames (settings : Settings) (source : String) (d : Diagnostic) : Prop where
  /-- A lexical error is the first misspelled token, or an integer that the policy refuses. -/
  lexical : d.stage = .lexical →
    ∃ (i : Nat) (t : Token), (tokenize settings.overflow source)[i]? = some t ∧
      (∀ u ∈ (tokenize settings.overflow source).take i, u.isProblem = false) ∧ d.span = t.span ∧
      ((∃ p, t.kind = .problem p ∧ d.message = p.message) ∨
        settings.overflow = .reject ∧ t.kind = .leastMagnitude)
  /-- Any other error stands at a token up to which none is misspelled, and describes this token
  unless it is about the depth. -/
  grammar : d.stage = .grammar →
    ∃ (i : Nat) (t : Token), (tokenize settings.overflow source)[i]? = some t ∧
      (∀ u ∈ (tokenize settings.overflow source).take (i + 1), u.isProblem = false) ∧
      d.span = t.span ∧
      (d.message = "Maximum nesting depth of " ++ toString settings.maxDepth ++ " exceeded" ∧
          d.expected = none ∧ d.found = none ∨
        d.found = some (t.kind.describe (t.span.slice source)))

/-- What a result says about the spelling of a source: if something was read, no token is misspelled. -/
def Respects {α : Type} (settings : Settings) (source : String) : Except Failure α → Prop
  | .ok _ => ∀ u ∈ tokenize settings.overflow source, u.isProblem = false
  | .error e => Blames settings source e.diagnostic

theorem Token.isProblem_eq_false {t : Token} (h : ∀ p, t.kind ≠ .problem p) :
    t.isProblem = false := by
  rw [Token.isProblem]
  cases hkind : t.kind with
  | problem p => exact absurd hkind (h p)
  | _ => rfl

/-- The tokens from number `i` on are ahead, and none of those before them is misspelled. -/
structure Reading (T : List Token) (i : Nat) (s : Stream) : Prop where
  drop : T.drop i = s.rest
  spelled : ∀ u ∈ T.take i, u.isProblem = false
  opens : ∀ u ∈ s.ahead, u.isEnd = false

namespace Reading

variable {T : List Token} {i : Nat} {s : Stream}

theorem ofSource (policy : OverflowPolicy) (source : String) :
    Reading (tokenize policy source) 0 (Stream.ofSource policy source) where
  drop := tokenize_eq policy source
  spelled _ hu := nomatch hu
  opens _ := isEnd_of_mem_ahead

theorem getElem? (h : Reading T i s) : T[i]? = some s.current := by
  rw [← List.head?_drop, h.drop, Stream.head?_rest]

theorem reached (h : Reading T i s) : Reached T s.current := ⟨i, h.getElem?, h.spelled⟩

theorem advance (h : Reading T i s) (hend : s.current.kind ≠ .endOfInput)
    (hs : s.current.isProblem = false) : Reading T (i + 1) s.advance where
  drop := by
    rw [← List.tail_drop, h.drop, Stream.rest_eq_cons hend, List.tail_cons]
  spelled := by
    intro u hu
    rw [List.take_add_one, h.getElem?] at hu
    rcases List.mem_append.1 hu with hu | hu
    · exact h.spelled u hu
    · rw [List.mem_singleton.1 hu]
      exact hs
  opens u hu := h.opens u (List.mem_of_mem_tail hu)

/-- At the end of the source all tokens have been passed. -/
theorem all_spelled (h : Reading T i s) (hend : s.current.isEnd = true) :
    ∀ u ∈ T, u.isProblem = false := by
  have hahead : s.ahead = [] := by
    rw [Stream.current, Stream.peek] at hend
    have hopens := h.opens
    cases hahead : s.ahead with
    | nil => rfl
    | cons t ts =>
      rw [hahead] at hend hopens
      have hopen := hopens t List.mem_cons_self
      exact absurd (hopen.symm.trans hend) Bool.false_ne_true
  intro u hu
  rw [← List.take_append_drop i T, h.drop, Stream.rest, hahead] at hu
  rcases List.mem_append.1 hu with hu | hu
  · exact h.spelled u hu
  · rw [List.mem_singleton.1 hu]
    rfl

end Reading

/-- What is known of a failure: no misspelled token stands before the one that it names. -/
def Failure.Justified (settings : Settings) (T : List Token) : Failure → Prop
  | .lexical p t => Reached T t ∧
      (t.kind = .problem p ∨
        settings.overflow = .reject ∧ t.kind = .leastMagnitude ∧ p = .integerRange t.text.toList)
  | .unexpected _ t => Reached T t ∧ t.isProblem = false
  | .tooDeep limit t => Reached T t ∧ t.isProblem = false ∧ limit = settings.maxDepth

/-- No misspelled token is passed. -/
def Stream.Invariant.spelled (settings : Settings) (T : List Token) : Stream.Invariant where
  policy := settings.overflow
  holds s := s.current.isProblem = false ∧ ∃ i, Reading T i s
  fails := Failure.Justified settings T
  advance := by
    rintro s ⟨hs, i, h⟩ hend hspelled
    exact ⟨Token.isProblem_eq_false hspelled, i + 1, h.advance hend hs⟩
  problem := by
    rintro s p ⟨hs, i, h⟩ hend hp
    exact ⟨(h.advance hend hs).reached, .inl hp⟩
  unexpected := by
    rintro s e ⟨hs, i, h⟩
    exact ⟨h.reached, hs⟩
  range := by
    rintro s hpolicy ⟨hs, i, h⟩ hkind
    exact ⟨h.reached, .inr ⟨hpolicy, hkind, rfl⟩⟩

/-- A justified failure blames the right token and describes it by its text in the source. -/
theorem Failure.Justified.blames {settings : Settings} {source : String} {e : Failure}
    (h : e.Justified settings (tokenize settings.overflow source)) :
    Blames settings source e.diagnostic := by
  cases e with
  | lexical p t =>
    obtain ⟨⟨i, ht, hbefore⟩, hkind⟩ := h
    refine ⟨fun _ => ⟨i, t, ht, hbefore, rfl, ?_⟩, Stage.noConfusion⟩
    rcases hkind with hkind | ⟨hpolicy, hkind, _⟩
    · exact .inl ⟨p, hkind, rfl⟩
    · exact .inr ⟨hpolicy, hkind⟩
  | tooDeep limit t =>
    obtain ⟨⟨i, ht, hbefore⟩, hspelled, rfl⟩ := h
    refine ⟨Stage.noConfusion, fun _ => ⟨i, t, ht, ?_, rfl, .inl ⟨rfl, rfl, rfl⟩⟩⟩
    exact through ht hbefore hspelled
  | unexpected expectation t =>
    obtain ⟨⟨i, ht, hbefore⟩, hspelled⟩ := h
    have htext : t.span.slice source = t.text := slice_of_mem_tokenize (List.mem_of_getElem? ht)
    have hthrough := through ht hbefore hspelled
    rw [Failure.diagnostic]
    split
    next hend =>
      refine ⟨Stage.noConfusion, fun _ => ⟨i, t, ht, hthrough, rfl, .inr ?_⟩⟩
      rw [eq_of_beq hend]
      rfl
    next =>
      refine ⟨Stage.noConfusion, fun _ => ⟨i, t, ht, hthrough, rfl, .inr ?_⟩⟩
      rw [htext]
      rfl
where
  /-- If no token before one is misspelled, and this one is not, then none up to it is. -/
  through {T : List Token} {i : Nat} {t : Token} (ht : T[i]? = some t)
      (hbefore : ∀ u ∈ T.take i, u.isProblem = false) (hspelled : t.isProblem = false) :
      ∀ u ∈ T.take (i + 1), u.isProblem = false := by
    intro u hu
    rw [List.take_add_one, ht] at hu
    rcases List.mem_append.1 hu with hu | hu
    · exact hbefore u hu
    · rw [List.mem_singleton.1 hu]
      exact hspelled

namespace Lockstep

open Rule Statement

variable {settings : Settings} {source : String}

/-- The run that passes no misspelled token. -/
abbrev spelled (settings : Settings) (source : String) : Lockstep :=
  alone (.spelled settings (tokenize settings.overflow source)) fun _ => False

theorem contexts_spelled (settings : Settings) (source : String) (n : Nat) :
    (spelled settings source).Contexts (context settings) (context settings) n := by
  refine contexts_context settings rfl rfl ?_ n
  rintro s _ ⟨rfl, hs, i, hreading⟩
  exact .inr ⟨rfl, hreading.reached, hs, rfl⟩

/-- At the beginning of a source no token has been passed. -/
theorem meet_spelled (settings : Settings) (source : String) :
    (spelled settings source).Meets (Stream.ofSource settings.overflow source)
      (Stream.ofSource settings.overflow source) := by
  have hreading := Reading.ofSource settings.overflow source
  refine Stream.Invariant.meet_self _ _ (fun hspelled => ?_) fun p hp => ?_
  · exact ⟨Token.isProblem_eq_false hspelled, 0, hreading⟩
  · exact ⟨hreading.reached, .inl hp⟩

/-- A run beside itself fails only for a reason. -/
theorem justified_of_agrees {α : Type} {S T : Stream} {k : α → Bool} {V : α → α → Prop} {x : Rule α}
    {s s' : ParseState} {e : Failure} (herror : x s = .error e s')
    (h : (spelled settings source).Agrees S T k V (x s) (x s)) :
    e.Justified settings (tokenize settings.overflow source) := by
  rw [herror] at h
  cases h with
  | excused hfalse => exact hfalse.elim
  | failure hfailure => exact hfailure.2

/-- A run beside itself that goes on to the end of its source has passed all tokens. -/
theorem respects_of_agrees {α : Type} {S T : Stream} {k : α → Bool} {V : α → α → Prop} {x : Rule α}
    {s : Session} (h : (spelled settings source).Agrees S T k V (x s.state) (x s.state))
    (hend : ∀ a s', x s.state = .ok a s' → s'.stream.current.isEnd = true) :
    Respects settings source (s.run x).1 := by
  rw [Session.run]
  cases hrun : x s.state with
  | ok a s' =>
    rw [hrun] at h
    cases h with
    | ok _ _ hbeside =>
      obtain ⟨_, _, i, hreading⟩ := hbeside.stream
      exact hreading.all_spelled (hend a s' hrun)
  | error e s' => exact (justified_of_agrees hrun h).blames

end Lockstep

open Lockstep Statement

theorem respects_parse (settings : Settings) (source : String) :
    Respects settings source (parse settings source) :=
  respects_of_agrees (agrees_single whole_alone (contexts_spelled settings source _)
    (meet_spelled settings source) rfl (Nat.lt_succ_self _)) fun _ _ => isEnd_of_single

theorem respects_parseScript (settings : Settings) (source : String) :
    Respects settings source (parseScript settings source) :=
  respects_of_agrees (agrees_script whole_alone (contexts_spelled settings source _)
    (meet_spelled settings source) rfl (Nat.lt_succ_self _)) fun _ _ => isEnd_of_script

/-- The first error of a source wins, and nothing misspelled is accepted, neither in a statement nor
in a script. -/
theorem parse_respects_spelling (settings : Settings) (source : String) :
    Respects settings source (parse settings source) ∧
      Respects settings source (parseScript settings source) :=
  ⟨respects_parse settings source, respects_parseScript settings source⟩

end TaggedSql
