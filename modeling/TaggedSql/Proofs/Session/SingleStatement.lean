import TaggedSql.Proofs.Session.Encoding
import TaggedSql.Proofs.Session.Relocated

/-!
# Single statements as scripts

A source can be read as a single statement or as a script. A single statement is a script with one
statement. The other way round, a script is a single statement if it has one statement, which no
semicolon precedes and at most one follows.

* `tokensBehind`: what follows the statement that a source begins with;
* `parseScript_of_single`: a single statement is a script with one statement;
* `single_of_script`: a script with one statement, between few enough semicolons, is a single one;
* `parse_iff_parseScript`: both together.
-/

namespace TaggedSql

open Rule Statement

/-- Whether a token is a semicolon. -/
def Token.isSemicolon (t : Token) : Bool := t.kind == .symbol .semicolon

/-- The tokens behind the statement that a source begins with, without the end token; none if the
source begins with no statement. -/
def tokensBehind (settings : Settings) (source : String) : List Token :=
  match tree settings source (Session.start settings source).state with
  | .ok _ s => s.stream.ahead
  | .error _ _ => []

variable {settings : Settings} {source : String} {s s' : ParseState} {t : Tree}

/-! ### Places of a source -/

/-- At a later place of a source the end is reached when no token is ahead. -/
theorem isEnd_iff_ahead {S : Stream} (h : (Stream.ofSource settings.overflow source).Later S) :
    S.current.isEnd = true ↔ S.ahead = [] := by
  rw [Stream.current, Stream.peek]
  cases hahead : S.ahead with
  | nil => exact ⟨fun _ => rfl, fun _ => rfl⟩
  | cons u us =>
    have hopen : u.isEnd = false := isEnd_of_mem_ahead (h.ahead.subset (hahead ▸ List.mem_cons_self))
    exact ⟨fun hend => absurd (hopen.symm.trans hend) Bool.false_ne_true, fun h => nomatch h⟩

/-- Where two semicolons stand at the front, at least two are ahead. -/
theorem two_le_countP_semicolons {S : Stream} (hfirst : S.current.kind = .symbol .semicolon)
    (hsecond : S.advance.current.kind = .symbol .semicolon) :
    2 ≤ S.ahead.countP Token.isSemicolon := by
  rw [Stream.current, Stream.peek] at hfirst
  rw [Stream.current_advance, Stream.peek] at hsecond
  cases hahead : S.ahead with
  | nil =>
    rw [hahead] at hfirst
    cases hfirst
  | cons u us =>
    rw [hahead] at hfirst hsecond
    have hu : u.isSemicolon = true := beq_iff_eq.2 hfirst
    cases us with
    | nil => cases hsecond
    | cons v vs =>
      have hv : v.isSemicolon = true := beq_iff_eq.2 hsecond
      rw [List.countP_cons_of_pos hu, List.countP_cons_of_pos hv]
      omega

/-- No statement begins with a semicolon or at the end of the source. -/
theorem front_of_tree (h : tree settings source s = .ok t s') :
    s.stream.current.kind ≠ .symbol .semicolon ∧ s.stream.current.isEnd = false := by
  have hfails : ∀ kind, s.stream.current.kind = kind → kind.word? = none → False := by
    intro kind hkind hword
    have hrun : statement (context settings) s =
        .error (.unexpected .statement s.stream.current) s := by
      rw [statement, bind_of_ok (currentWord?_run s), hkind, hword]
      rfl
    rw [tree, bind_of_error hrun] at h
    cases h
  refine ⟨fun hkind => hfails _ hkind rfl, ?_⟩
  rw [Bool.eq_false_iff]
  exact fun hend => hfails _ (eq_of_beq hend) rfl

/-- A statement leads on to a later place of its source. -/
theorem later_of_tree (h : tree settings source s = .ok t s') : s.stream.Later s'.stream := by
  have hgives : (Ledger.later settings.overflow s.stream).Gives (tree settings source) fun _ => True :=
    Ledger.later_tree
  have hresult := hgives s (.refl s.stream)
  rw [h] at hresult
  exact hresult.2

/-! ### From single statements to scripts -/

theorem scriptTrees_of_single (h : single settings source s = .ok t s') :
    scriptTrees settings source s = .ok [t] s' := by
  obtain ⟨hspelled, s₁, found, htree, heat, hend⟩ := single_eq_ok h
  obtain ⟨hsemicolon, hopen⟩ := front_of_tree htree
  rw [scriptTrees, bind_of_ok hspelled, statements_of_statement hsemicolon hopen, bind_of_ok htree,
    List.nil_append]
  by_cases hkind : s₁.stream.current.kind = .symbol .semicolon
  · have hcloses : s₁.stream.current.kind.closes = true := by rw [hkind]; rfl
    rw [eat_semicolon hkind] at heat
    obtain ⟨_, s₂, hspelled', hpure⟩ := bind_eq_ok heat
    cases hpure
    rw [bind_of_ok (divided_of_closes hcloses), statements_of_semicolon hkind, bind_of_ok hspelled']
    exact statements_of_end hend
  · rw [eat_semicolon_of_ne hkind] at heat
    cases heat
    have hcloses : s'.stream.current.kind.closes = true := by rw [eq_of_beq hend]; rfl
    rw [bind_of_ok (divided_of_closes hcloses)]
    exact statements_of_end hend

theorem parseScript_of_single (h : parse settings source = .ok t) :
    parseScript settings source = .ok [t] := by
  obtain ⟨s', hsingle⟩ := Session.run_eq_ok h
  exact parseScript_of_ok (List.cons_ne_nil _ _) (scriptTrees_of_single hsingle)

/-- At most one semicolon follows a single statement. -/
theorem semicolons_of_single (h : parse settings source = .ok t) :
    (tokensBehind settings source).countP Token.isSemicolon ≤ 1 := by
  obtain ⟨s', hsingle⟩ := Session.run_eq_ok h
  obtain ⟨_, s₁, found, htree, heat, hend⟩ := single_eq_ok hsingle
  have hlater := later_of_tree htree
  have hbehind : tokensBehind settings source = s₁.stream.ahead := by
    show (match tree settings source _ with | .ok _ s => s.stream.ahead | .error _ _ => []) = _
    rw [show tree settings source (Session.start settings source).state = .ok t s₁ from htree]
  rw [hbehind]
  refine Nat.le_trans List.countP_le_length ?_
  rcases eat_eq_ok heat with ⟨_, _, rfl⟩ | ⟨_, rfl⟩
  · have htail : s₁.stream.ahead.tail = [] := (isEnd_iff_ahead hlater.advance).1 hend
    have hlength := congrArg List.length htail
    rw [List.length_tail, List.length_nil] at hlength
    omega
  · rw [(isEnd_iff_ahead hlater).1 hend]
    exact Nat.zero_le _

/-! ### From scripts to single statements -/

/-- Behind the trees read so far stand those of the statements that follow. -/
theorem statements_eq_ok {done trees : List Tree}
    (h : statements settings source done s = .ok trees s') :
    ∃ more, statements settings source [] s = .ok more s' ∧ trees = done ++ more := by
  rw [statements_append] at h
  cases hmore : statements settings source [] s with
  | error e s₁ =>
    rw [map_of_error hmore] at h
    cases h
  | ok more s₁ =>
    rw [map_of_ok hmore] at h
    cases h
    exact ⟨more, rfl, rfl⟩

/-- Where no further statement follows and no semicolon stands, the source ends. -/
theorem isEnd_of_no_statement (hnone : statements settings source [] s = .ok [] s')
    (hkind : s.stream.current.kind ≠ .symbol .semicolon) : s.stream.current.isEnd = true := by
  cases hend : s.stream.current.isEnd with
  | true => rfl
  | false =>
    rw [statements_of_statement hkind hend] at hnone
    obtain ⟨next, s₁, _, hrest⟩ := bind_eq_ok hnone
    obtain ⟨_, s₂, _, hrest⟩ := bind_eq_ok hrest
    obtain ⟨trees, _, hcons⟩ := statements_eq_ok hrest
    cases hcons

/-- A script with one statement that no semicolon precedes begins with this statement, and no further
one follows. -/
theorem exists_tree_of_scriptTrees (h : scriptTrees settings source s = .ok [t] s')
    (hkind : s.stream.current.kind ≠ .symbol .semicolon) :
    checkSpelling s = .ok () s ∧ ∃ s₁, tree settings source s = .ok t s₁ ∧
      statements settings source [] s₁ = .ok [] s' := by
  obtain ⟨_, s₀, hspelled, hrest⟩ := bind_eq_ok h
  obtain ⟨rfl, _⟩ := checkSpelling_eq_ok hspelled
  refine ⟨hspelled, ?_⟩
  cases hend : s₀.stream.current.isEnd with
  | true =>
    rw [statements_of_end hend] at hrest
    cases hrest
  | false =>
    rw [statements_of_statement hkind hend] at hrest
    obtain ⟨next, s₁, htree, hrest⟩ := bind_eq_ok hrest
    obtain ⟨_, s₂, hdivided, hstatements⟩ := bind_eq_ok hrest
    obtain ⟨rfl, _⟩ := closes_of_divided hdivided
    obtain ⟨more, hmore, hcons⟩ := statements_eq_ok hstatements
    cases hcons
    exact ⟨s₂, htree, hmore⟩

/-- A script with one statement, which no semicolon precedes and at most one follows, is a single
statement. -/
theorem single_of_script (h : parseScript settings source = .ok [t])
    (hfirst : (tokenize settings.overflow source).head?.map Token.kind ≠ some (.symbol .semicolon))
    (hbehind : (tokensBehind settings source).countP Token.isSemicolon ≤ 1) :
    parse settings source = .ok t := by
  obtain ⟨_, s', hscript⟩ := scriptTrees_of_parseScript h
  have hkind : (Session.start settings source).state.stream.current.kind ≠ .symbol .semicolon := by
    intro hkind
    refine hfirst ?_
    have hhead := (Stream.ofSource settings.overflow source).head?_rest
    rw [Stream.rest, ← tokenize_eq] at hhead
    rw [hhead]
    exact congrArg some hkind
  obtain ⟨hspelled, s₁, htree, hmore⟩ := exists_tree_of_scriptTrees hscript hkind
  have hlater := later_of_tree htree
  rw [tokensBehind, htree] at hbehind
  have hrun : ∃ s₂, eat (.symbol .semicolon) s₁ = .ok s₁.stream.current.isSemicolon s₂ ∧
      s₂.stream.current.isEnd = true := by
    by_cases hsemicolon : s₁.stream.current.kind = .symbol .semicolon
    · rw [statements_of_semicolon hsemicolon] at hmore
      obtain ⟨_, s₂, hspelled', hmore⟩ := bind_eq_ok hmore
      obtain ⟨rfl, _⟩ := checkSpelling_eq_ok hspelled'
      refine ⟨_, ?_, isEnd_of_no_statement hmore fun hsecond => ?_⟩
      · rw [eat_semicolon hsemicolon, bind_of_ok hspelled', Token.isSemicolon, hsemicolon]
        rfl
      · -- Two semicolons would follow the statement.
        have htwo := two_le_countP_semicolons hsemicolon hsecond
        change s₁.stream.ahead.countP _ ≤ 1 at hbehind
        omega
    · refine ⟨s₁, ?_, isEnd_of_no_statement hmore hsemicolon⟩
      rw [eat_semicolon_of_ne hsemicolon, Token.isSemicolon, beq_false_of_ne hsemicolon]
  obtain ⟨s₂, heat, hend⟩ := hrun
  have hsingle : single settings source (Session.start settings source).state = .ok t s₂ := by
    rw [single, bind_of_ok hspelled, bind_of_ok htree, bind_of_ok heat, bind_of_ok (atEnd_run s₂),
      hend]
    rfl
  show (Session.run _ (single settings source)).1 = _
  rw [Session.run, hsingle]

/-- What is read as a single statement is read as a script with this statement alone. A source that is
read as a script is read as a single statement exactly if it has one statement, which no semicolon
precedes and at most one follows, and the result is this statement. -/
theorem parse_iff_parseScript (settings : Settings) (source : String) :
    (∀ t, parse settings source = .ok t → parseScript settings source = .ok [t]) ∧
      ∀ trees, parseScript settings source = .ok trees → ∀ t, parse settings source = .ok t ↔
        trees = [t] ∧
          (tokenize settings.overflow source).head?.map Token.kind ≠ some (.symbol .semicolon) ∧
          (tokensBehind settings source).countP Token.isSemicolon ≤ 1 := by
  refine ⟨fun t h => parseScript_of_single h, fun trees htrees t => ⟨fun h => ?_, ?_⟩⟩
  · have hone := parseScript_of_single h
    rw [htrees] at hone
    refine ⟨Except.ok.inj hone, fun hfirst => ?_, semicolons_of_single h⟩
    obtain ⟨s', hsingle⟩ := Session.run_eq_ok h
    obtain ⟨_, htree, _⟩ := exists_of_single hsingle
    have hhead := (Stream.ofSource settings.overflow source).head?_rest
    rw [Stream.rest, ← tokenize_eq] at hhead
    rw [hhead] at hfirst
    exact (front_of_tree htree).1 (Option.some.inj hfirst)
  · rintro ⟨rfl, hfirst, hbehind⟩
    exact single_of_script htrees hfirst hbehind

/-- One semicolon behind a statement, and two of them. -/
theorem parse_iff_parseScript_semicolons :
    (∃ t, parse {} "DROP VIEW a;" = .ok t ∧ parseScript {} "DROP VIEW a;" = .ok [t]) ∧
      ∃ t, parseScript {} "DROP VIEW a;;" = .ok [t] ∧ ∀ u, parse {} "DROP VIEW a;;" ≠ .ok u := by
  constructor
  · have hread : (parse {} "DROP VIEW a;").toOption.isSome = true := by decide +kernel
    obtain ⟨t, ht⟩ := Option.isSome_iff_exists.1 hread
    have hparse := eq_ok_of_toOption ht
    exact ⟨t, hparse, (parse_iff_parseScript {} _).1 t hparse⟩
  · have hread : (parseScript {} "DROP VIEW a;;").toOption.map List.length = some 1 := by
      decide +kernel
    obtain ⟨trees, htrees, hlength⟩ := Option.map_eq_some_iff.1 hread
    obtain ⟨t, rfl⟩ := List.length_eq_one_iff.1 hlength
    have hscript := eq_ok_of_toOption htrees
    refine ⟨t, hscript, fun u hu => ?_⟩
    have hbehind := (((parse_iff_parseScript {} _).2 _ hscript u).1 hu).2.2
    have htwo : (tokensBehind {} "DROP VIEW a;;").countP Token.isSemicolon = 2 := by
      decide +kernel
    omega

end TaggedSql
