import TaggedSql.Proofs.Lockstep.Twins
import TaggedSql.Proofs.Session.FirstError
import TaggedSql.Proofs.Token.Locality

/-!
# Scripts behind each other

Two scripts with a newline and a semicolon between them are one script. Its trees are those of the
first script, and those of the second with their spans shifted. Reading the first part, no rule can tell
the semicolon from the end of the source; reading the second part, no rule looks at places.

* `Lockstep.severed`: a run to the end of a source beside one that meets a semicolon there;
* `statements_severed`: the statements of the first part;
* `shift_of_twins`: the results of the second part;
* `parseScript_append`: both parts together.
-/

namespace TaggedSql

/-! ### Later places -/

/-- The node with its span a number of bytes later. -/
def Node.shift (k : Nat) : Node → Node
  | .name s => .name (s.shift k)
  | .string s => .string (s.shift k)
  | .blob s => .blob (s.shift k)
  | node => node

/-- The arena with all spans a number of bytes later. -/
def Arena.shift (k : Nat) (a : Arena) : Arena := { a with nodes := a.nodes.map (Node.shift k) }

/-- The tree with all spans a number of bytes later. -/
def Tree.shift (k : Nat) (t : Tree) : Tree := { t with arena := t.arena.shift k }

/-- The tree as one of another source. -/
def Tree.within (source : String) (t : Tree) : Tree := { t with source }

/-- The diagnostic a number of bytes later. -/
def Diagnostic.shift (k : Nat) (d : Diagnostic) : Diagnostic := { d with span := d.span.shift k }

/-! ### The first part -/

namespace Lockstep

open Rule Statement

/-- The same tokens are ahead, and where the first source ends, the second one has a semicolon and
further tokens. -/
def Severed (semicolon : Token) (behind s t : Stream) : Prop :=
  t = ⟨s.ahead ++ semicolon :: behind.ahead, behind.stop⟩ ∧ ∀ u ∈ s.ahead, u.isEnd = false

section Severed

variable {semicolon : Token} {behind s t : Stream}

/-- Where no statement ends, the same token is at the front. -/
theorem Severed.exists_cons (h : Severed semicolon behind s t)
    (hopen : s.current.kind.closes = false) :
    ∃ u us, s.ahead = u :: us ∧ t.ahead = u :: (us ++ semicolon :: behind.ahead) := by
  obtain ⟨rfl, _⟩ := h
  cases hahead : s.ahead with
  | nil =>
    rw [Stream.current, Stream.peek, hahead] at hopen
    cases hopen
  | cons u us => exact ⟨u, us, rfl, rfl⟩

/-- The token at the front is the same, or the first source ends where the semicolon stands. -/
theorem Severed.current (h : Severed semicolon behind s t) :
    t.current = s.current ∨ s.ahead = [] ∧ t.current = semicolon := by
  obtain ⟨rfl, _⟩ := h
  rw [Stream.current, Stream.peek, Stream.current, Stream.peek]
  cases s.ahead with
  | nil => exact .inr ⟨rfl, rfl⟩
  | cons u us => exact .inl rfl

theorem Severed.advance (h : Severed semicolon behind s t) {u : Token} {us : List Token}
    (hahead : s.ahead = u :: us) : Severed semicolon behind s.advance t.advance := by
  obtain ⟨rfl, hopens⟩ := h
  refine ⟨?_, fun v hv => hopens v (List.mem_of_mem_tail hv)⟩
  simp [Stream.advance, hahead]

/-- At the end of the first source the semicolon and the tokens behind it are ahead in the second. -/
theorem Severed.of_isEnd (h : Severed semicolon behind s t) (hend : s.current.isEnd = true) :
    t = ⟨semicolon :: behind.ahead, behind.stop⟩ := by
  obtain ⟨rfl, hopens⟩ := h
  rw [Stream.current, Stream.peek] at hend
  cases hahead : s.ahead with
  | nil => rfl
  | cons u us =>
    rw [hahead] at hend hopens
    exact absurd ((hopens u List.mem_cons_self).symm.trans hend) Bool.false_ne_true

theorem Severed.current_of_not_end (h : Severed semicolon behind s t)
    (hend : s.current.isEnd = false) : t.current = s.current ∧ ∃ u us, s.ahead = u :: us := by
  obtain ⟨rfl, _⟩ := h
  rw [Stream.current, Stream.peek] at hend
  rw [Stream.current, Stream.peek, Stream.current, Stream.peek]
  cases hahead : s.ahead with
  | nil =>
    rw [hahead] at hend
    cases hend
  | cons u us => exact ⟨rfl, u, us, rfl⟩

theorem Severed.spelled (h : Severed semicolon behind s t)
    (hsemicolon : semicolon.kind = .symbol .semicolon) (hs : ∀ p, s.current.kind ≠ .problem p)
    (p : Problem) : t.current.kind ≠ .problem p := by
  rcases h.current with hsame | ⟨_, hcurrent⟩
  · rw [hsame]
    exact hs p
  · rw [hcurrent, hsemicolon]
    exact Kind.noConfusion

/-- A run to the end of a source beside one that meets a semicolon there. What makes the first run
fail need not make the second one fail. -/
def severed (policy : OverflowPolicy) (semicolon : Token) (behind : Stream)
    (hsemicolon : semicolon.kind = .symbol .semicolon) : Lockstep where
  left := policy
  right := policy
  stream := Severed semicolon behind
  arena := Eq
  span := Eq
  node := Eq
  excused _ := True
  failure _ _ := False
  front := by
    intro s t h
    rcases h.current with hsame | ⟨hnil, hcurrent⟩
    · exact .inl (congrArg Token.kind hsame.symm)
    · refine .inr ⟨?_, ?_⟩
      · rw [Stream.current, Stream.peek, hnil]
        rfl
      · rw [hcurrent, hsemicolon]
        rfl
  text := by
    intro s t h hopen
    obtain ⟨u, us, hs, ht⟩ := h.exists_cons hopen
    rw [Stream.current, Stream.current, Stream.peek, Stream.peek, hs, ht]
    rfl
  frontSpan := by
    intro s t h hopen
    obtain ⟨u, us, hs, ht⟩ := h.exists_cons hopen
    rw [Stream.current, Stream.current, Stream.peek, Stream.peek, hs, ht]
    rfl
  second := by
    intro s t h hopen
    obtain ⟨u, us, hs, ht⟩ := h.exists_cons hopen
    rw [Stream.peek, Stream.peek, hs, ht]
    cases us with
    | nil => exact .inr ⟨rfl, show semicolon.kind.isSought = false by rw [hsemicolon]; rfl⟩
    | cons v us => exact .inl rfl
  third := by
    intro s t h hopen hdot
    obtain ⟨u, us, hs, ht⟩ := h.exists_cons hopen
    rw [Stream.peek, hs] at hdot
    rw [Stream.peek, Stream.peek, hs, ht]
    rcases us with _ | ⟨v, _ | ⟨w, us⟩⟩
    · cases hdot
    · exact .inr ⟨rfl, show semicolon.kind.isSought = false by rw [hsemicolon]; rfl⟩
    · exact .inl rfl
  advance := by
    intro s t h hopen
    obtain ⟨u, us, hs, ht⟩ := h.exists_cons hopen
    have hnext := h.advance hs
    by_cases hp : ∃ p, s.advance.current.kind = .problem p
    · obtain ⟨p, hp⟩ := hp
      exact .excused hp trivial
    · have hspelled : ∀ p, s.advance.current.kind ≠ .problem p := fun p h => hp ⟨p, h⟩
      exact .goOn hnext hspelled (hnext.spelled hsemicolon hspelled)
  unexpected _ _ := .inl trivial
  promote h := h
  range _ _ _ := .inl trivial
  join := join_same
  push := push_same
  pushList := pushList_same

end Severed

variable {settings : Settings} {source source' : String} {semicolon : Token} {behind : Stream}

theorem contexts_severed (settings : Settings) (hsemicolon : semicolon.kind = .symbol .semicolon)
    (n : Nat) : (severed settings.overflow semicolon behind hsemicolon).Contexts (context settings)
      (context settings) n := by
  refine contexts_context settings rfl rfl (fun s t hst => ?_) n
  exact .inl trivial

/-- A statement that is read to a place before the end or to the end is read before a semicolon
too. -/
theorem tree_severed (source' : String) (hsemicolon : semicolon.kind = .symbol .semicolon) {t : Tree}
    {s s' u : ParseState} (h : tree settings source s = .ok t s')
    (hstream : Severed semicolon behind s.stream u.stream) (harena : s.arena = u.arena) :
    s'.stream.size < s.stream.size ∧ ∃ u', tree settings source' u = .ok (t.within source') u' ∧
      Severed semicolon behind s'.stream u'.stream := by
  have hagrees := follows_tree source source' rfl
    (contexts_severed settings hsemicolon (s.stream.size + 1)) s u ⟨hstream, harena⟩ trivial
    (Nat.lt_succ_self _)
  rw [h] at hagrees
  generalize hrun : tree settings source' u = r at hagrees ⊢
  cases hagrees with
  | @ok _ t' _ u' j htrees hbeside hj hleft _ =>
    have := hj rfl
    refine ⟨by omega, u', ?_, hbeside.stream⟩
    have htree : t' = t.within source' := by
      obtain ⟨_, hsource, harena, hroot⟩ := htrees
      cases t'
      cases hsource
      cases harena
      cases hroot
      rfl
    rw [htree]

/-- The statements of the first part are read before a semicolon as before the end, and then reading
goes on behind the semicolon. -/
theorem statements_severed (hsemicolon : semicolon.kind = .symbol .semicolon)
    {trees trees' : List Tree} {s s' u : ParseState}
    (h : statements settings source trees s = .ok trees' s')
    (hstream : Severed semicolon behind s.stream u.stream) (hs : s.arena = {}) (hu : u.arena = {}) :
    statements settings source' (trees.map (Tree.within source')) u =
      (checkSpelling >>= fun _ =>
        statements settings source' (trees'.map (Tree.within source'))) ⟨behind, {}⟩ := by
  induction hsize : s.stream.size using Nat.strongRecOn generalizing s u trees with
  | ind size ih =>
    cases hend : s.stream.current.isEnd with
    | true =>
      -- The first source is at its end, and the second one at the semicolon.
      rw [statements_of_end hend] at h
      cases h
      have hfront : u.stream.current.kind = .symbol .semicolon := by
        rw [hstream.of_isEnd hend]
        exact hsemicolon
      rw [statements_of_semicolon hfront, hstream.of_isEnd hend, hu]
      rfl
    | false =>
      obtain ⟨hcurrent, v, vs, hahead⟩ := hstream.current_of_not_end hend
      by_cases hfront : s.stream.current.kind = .symbol .semicolon
      · rw [statements_of_semicolon hfront] at h
        obtain ⟨_, s₁, hspelling, hrest⟩ := bind_eq_ok h
        obtain ⟨rfl, hspelled⟩ := checkSpelling_eq_ok hspelling
        have hnext := hstream.advance hahead
        rw [statements_of_semicolon (hcurrent ▸ hfront),
          bind_of_ok (checkSpelling_run (hnext.spelled hsemicolon hspelled))]
        exact ih _ (hsize ▸ size_advance_lt hfront) hrest hnext hs hu rfl
      · rw [statements_of_statement hfront hend] at h
        obtain ⟨t, s₁, htree, h⟩ := bind_eq_ok h
        obtain ⟨_, s₂, hdivided, hrest⟩ := bind_eq_ok h
        obtain ⟨rfl, hcloses⟩ := closes_of_divided hdivided
        obtain ⟨hless, u₁, htree', hnext⟩ :=
          tree_severed source' hsemicolon htree hstream (hs.trans hu.symm)
        have hcloses' : u₁.stream.current.kind.closes = true := by
          rw [← ((severed settings.overflow semicolon behind hsemicolon).front hnext).closes_eq]
          exact hcloses
        rw [statements_of_statement (hcurrent ▸ hfront) (hcurrent ▸ hend), bind_of_ok htree',
          bind_of_ok (divided_of_closes hcloses')]
        have happend : trees.map (Tree.within source') ++ [t.within source'] =
            (trees ++ [t]).map (Tree.within source') := by
          rw [List.map_append]
          rfl
        rw [happend]
        exact ih _ (hsize ▸ hless) hrest hnext (arena_of_tree htree) (arena_of_tree htree') rfl

end Lockstep

/-! ### The second part -/

section Shift

variable {T : List Token} {k : Nat}

theorem Token.Twins.shift_eq {t u : Token} (h : Token.Twins T (T.map (Token.shift k)) t u) :
    u = t.shift k := by
  obtain ⟨i, ht, hu⟩ := h.number
  rw [List.getElem?_map, ht] at hu
  exact (Option.some.inj hu).symm

theorem Span.Twins.shift_eq {a b : Span} (h : Span.Twins T (T.map (Token.shift k)) a b) :
    b = a.shift k := by
  obtain ⟨t, u, t', u', htu, htu', rfl, rfl⟩ := h
  rw [htu.shift_eq, htu'.shift_eq]
  rfl

theorem Node.Twins.shift_eq {a b : Node} (h : Node.Twins T (T.map (Token.shift k)) a b) :
    b = a.shift k := by
  cases h with
  | list r => rfl
  | atom h =>
    cases h with
    | tag t => rfl
    | integer n => rfl
    | float x => rfl
    | name h => rw [h.shift_eq]; rfl
    | string h => rw [h.shift_eq]; rfl
    | blob h => rw [h.shift_eq]; rfl

theorem Arena.Twins.shift_eq {A B : Arena} (h : Arena.Twins T (T.map (Token.shift k)) A B) :
    B = A.shift k := by
  have hnodes : B.nodes.toList = A.nodes.toList.map (Node.shift k) := by
    have hforall := h.nodes
    generalize A.nodes.toList = as at hforall
    generalize B.nodes.toList = bs at hforall
    induction hforall with
    | nil => rfl
    | cons hab _ ih => rw [hab.shift_eq, ih, List.map_cons]
  rw [← Array.toList_map] at hnodes
  obtain ⟨nodes, children⟩ := B
  rw [Arena.shift, ← Array.toList_inj.1 hnodes, h.children]

/-- Diagnostics of failures at corresponding tokens differ only by the shift. -/
theorem Failure.Twins.shift_eq {e f : Failure}
    (h : Failure.Twins T (T.map (Token.shift k)) e f) : f.diagnostic = e.diagnostic.shift k := by
  cases h with
  | lexical p h => rw [h.shift_eq]; rfl
  | tooDeep limit h => rw [h.shift_eq]; rfl
  | @unexpected e t u h =>
    rw [h.shift_eq, Failure.diagnostic, Failure.diagnostic]
    have hend : (t.shift k).isEnd = t.isEnd := rfl
    rw [hend]
    split <;> rfl

end Shift

/-! ### Both parts -/

open Rule Statement Lockstep Text

variable {settings : Settings} {source source' : String}

/-- The stream of a source a number of bytes later. -/
def Stream.shift (k : Nat) (s : Stream) : Stream := ⟨s.ahead.map (Token.shift k), s.stop + k⟩

/-- The stream of two sources with a newline and a semicolon between them. -/
theorem severed_ofSource {policy : OverflowPolicy} (source' : String)
    (hspelled : ∀ t ∈ tokenize policy source, t.isProblem = false) :
    Severed (Lexer.semicolonAt (width source.toList + 1))
      ((Stream.ofSource policy source').shift (width source.toList + 2))
      (Stream.ofSource policy source) (Stream.ofSource policy (source ++ "\n;" ++ source')) := by
  refine ⟨?_, (Reading.ofSource policy source).opens⟩
  have happend := tokenize_append hspelled source'
  rw [tokenize_eq, tokenize_eq, tokenize_eq, List.dropLast_concat, List.map_append,
    ← List.cons_append, ← List.append_assoc] at happend
  obtain ⟨hahead, hstop⟩ := List.append_inj' happend rfl
  have hstop := congrArg (fun t : Token => t.span.stop) (List.cons.inj hstop).1
  generalize Stream.ofSource policy (source ++ "\n;" ++ source') = s at hahead hstop ⊢
  obtain ⟨ahead, stop⟩ := s
  exact Stream.mk.injEq .. ▸ ⟨hahead, hstop⟩

theorem twins_shift (policy : OverflowPolicy) (source : String) (k : Nat) :
    Stream.Twins (tokenize policy source) ((tokenize policy source).map (Token.shift k))
      (Stream.ofSource policy source) ((Stream.ofSource policy source).shift k) := by
  refine .of_bare (tokenize_eq policy source) ?_ ?_
  · rw [tokenize_eq, List.map_append]
    rfl
  · rw [List.map_map]
    rfl

/-- The first of two scripts is read as it stands, and the second one behind it. -/
theorem scriptTrees_append (source' : String) {trees : List Tree} {s' : ParseState}
    (h : scriptTrees settings source (Session.start settings source).state = .ok trees s')
    (hspelled : ∀ t ∈ tokenize settings.overflow source, t.isProblem = false) :
    scriptTrees settings (source ++ "\n;" ++ source')
        (Session.start settings (source ++ "\n;" ++ source')).state =
      ((trees.map (Tree.within (source ++ "\n;" ++ source')) ++ ·) <$>
        scriptTrees settings (source ++ "\n;" ++ source'))
        ⟨(Stream.ofSource settings.overflow source').shift (width source.toList + 2), {}⟩ := by
  have hsevered := severed_ofSource source' hspelled
  obtain ⟨_, s₁, hspelling, hrun⟩ := bind_eq_ok h
  obtain ⟨rfl, hfront⟩ := checkSpelling_eq_ok hspelling
  rw [scriptTrees, bind_of_ok (checkSpelling_run (hsevered.spelled rfl hfront)), map_bind]
  simp only [← statements_append]
  exact statements_severed rfl hrun hsevered rfl rfl

/-- The second script beside itself a number of bytes later. -/
abbrev later (settings : Settings) (source : String) (k : Nat) : Lockstep :=
  twins settings.overflow (tokenize settings.overflow source)
    ((tokenize settings.overflow source).map (Token.shift k))

theorem agrees_later (settings : Settings) (source source' : String) (k : Nat) :
    (later settings source k).Agrees (Stream.ofSource settings.overflow source)
      ((Stream.ofSource settings.overflow source).shift k) (fun _ => false)
      (List.Forall₂ ((later settings source k).Trees source source'))
      (scriptTrees settings source (Session.start settings source).state)
      (scriptTrees settings source' ⟨(Stream.ofSource settings.overflow source).shift k, {}⟩) := by
  have htwins := twins_shift settings.overflow source k
  refine Agrees.checkSpelling (j := 0) htwins.meet ⟨rfl, .nil⟩ rfl rfl fun hbeside => ?_
  exact follows_scriptTrees whole_twins (contexts_twins settings _) _ _ hbeside trivial
    (Nat.lt_succ_self _)

theorem map_of_trees {k : Nat} {ts us : List Tree}
    (h : List.Forall₂ ((later settings source k).Trees source source') ts us) :
    us = ts.map fun t => (t.shift k).within source' := by
  induction h with
  | nil => rfl
  | @cons t u ts us htu _ ih =>
    obtain ⟨_, hsource, harena, hroot⟩ := htu
    have hu : u = (t.shift k).within source' := by
      obtain ⟨source, arena, root⟩ := u
      cases hsource
      cases hroot
      cases Arena.Twins.shift_eq harena
      rfl
    rw [hu, ih, List.map_cons]

/-- Scripts compose. If a script is read, so is every script that follows it behind a newline and a
semicolon, and if the second one fails for another reason than that it has no statement, the two
together fail for the same reason. -/
theorem parseScript_append (settings : Settings) (source source' : String) (trees : List Tree)
    (h : parseScript settings source = .ok trees) :
    (∀ trees', parseScript settings source' = .ok trees' →
      parseScript settings (source ++ "\n;" ++ source') =
        .ok (trees.map (Tree.within (source ++ "\n;" ++ source')) ++
          trees'.map fun t => (t.shift (width source.toList + 2)).within
            (source ++ "\n;" ++ source'))) ∧
    ∀ e, parseScript settings source' = .error e →
      (∀ span, e.diagnostic ≠ .unexpectedEnd Expectation.statement.text span) →
      ∃ f, parseScript settings (source ++ "\n;" ++ source') = .error f ∧
        f.diagnostic = e.diagnostic.shift (width source.toList + 2) := by
  have hspelled : ∀ t ∈ tokenize settings.overflow source, t.isProblem = false := by
    have hrespects := respects_parseScript settings source
    rwa [h] at hrespects
  obtain ⟨hne, s₁, hfirst⟩ := scriptTrees_of_parseScript h
  have hboth := scriptTrees_append source' hfirst hspelled
  have hagrees := agrees_later settings source' (source ++ "\n;" ++ source')
    (width source.toList + 2)
  generalize hlater : scriptTrees settings (source ++ "\n;" ++ source') ⟨_, {}⟩ = r at hagrees
  constructor
  · intro trees' h'
    obtain ⟨_, s₂, hsecond⟩ := scriptTrees_of_parseScript h'
    rw [hsecond] at hagrees
    cases hagrees with
    | ok _ htrees =>
      rw [← map_of_trees htrees]
      refine parseScript_of_ok ?_ (hboth.trans (map_of_ok hlater))
      exact List.append_ne_nil_of_left_ne_nil (fun hnil => hne (List.map_eq_nil_iff.1 hnil)) _
  · intro e h' hother
    rcases scriptTrees_of_parseScript_error h' with ⟨s₂, hsecond⟩ | ⟨t, ht, rfl⟩
    · rw [hsecond] at hagrees
      cases hagrees with
      | excused hfalse => exact hfalse.elim
      | failure htwins =>
        exact ⟨_, parseScript_of_error (hboth.trans (map_of_error hlater)), htwins.shift_eq⟩
    · refine absurd ?_ (hother t.span)
      rw [Failure.diagnostic, if_pos ht]

/-- A script that ends in a comment, with a statement behind it and with a word that is none. -/
theorem parseScript_append_comment :
    parseScript {} "DROP VIEW a -- b\n;DROP VIEW c" =
      .ok [⟨"DROP VIEW a -- b\n;DROP VIEW c",
          ⟨#[.tag .dropView, .name ⟨10, 11⟩, .list ⟨0, 2⟩], #[0, 1]⟩, 2⟩,
        ⟨"DROP VIEW a -- b\n;DROP VIEW c",
          ⟨#[.tag .dropView, .name ⟨28, 29⟩, .list ⟨0, 2⟩], #[0, 1]⟩, 2⟩] ∧
      ∃ f, parseScript {} "DROP VIEW a -- b\n;c" = .error f ∧
        f.diagnostic = .unexpected Expectation.statement.text "identifier `c`" ⟨18, 19⟩ := by
  have hfirst : parseScript {} "DROP VIEW a -- b" =
      .ok [⟨"DROP VIEW a -- b",
        ⟨#[.tag .dropView, .name ⟨10, 11⟩, .list ⟨0, 2⟩], #[0, 1]⟩, 2⟩] := by
    decide +kernel
  have hsecond : parseScript {} "DROP VIEW c" =
      .ok [⟨"DROP VIEW c", ⟨#[.tag .dropView, .name ⟨10, 11⟩, .list ⟨0, 2⟩], #[0, 1]⟩, 2⟩] := by
    decide +kernel
  have hword : parseScript {} "c" =
      .error (.unexpected .statement ⟨.identifier false, ⟨0, 1⟩, "c"⟩) := by
    decide +kernel
  constructor
  · have htext : "DROP VIEW a -- b\n;DROP VIEW c" =
        "DROP VIEW a -- b" ++ "\n;" ++ "DROP VIEW c" := by decide
    rw [htext, (parseScript_append {} _ _ _ hfirst).1 _ hsecond]
    decide +kernel
  · have htext : "DROP VIEW a -- b\n;c" = "DROP VIEW a -- b" ++ "\n;" ++ "c" := by decide
    have hfound : some "identifier `c`" ≠ some Diagnostic.endOfInput := by decide +kernel
    obtain ⟨f, hf, hdiagnostic⟩ := (parseScript_append {} _ _ _ hfirst).2 _ hword
      fun span h => hfound (congrArg Diagnostic.found h)
    exact ⟨f, htext ▸ hf, hdiagnostic.trans (by decide +kernel)⟩

end TaggedSql
