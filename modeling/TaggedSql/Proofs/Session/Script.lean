import TaggedSql.Proofs.Lockstep.Alone

/-!
# Scripts, statement by statement

Every further statement of a script takes a token, so a script that is read is read to the end of its
source. The trees read so far only collect the result, and a semicolon before a statement makes no
difference.

* `size_lt_of_extendScript`: every further statement takes a token;
* `single_eq_ok`, `extendScript_eq_ok`, `script_eq_ok`: what a source that is read consists of;
* `isEnd_of_script`, `isEnd_of_single`: a source is read to its end;
* `arena_of_single`, `arena_of_script`: behind a source that is read the arena is empty;
* `exists_tree_of_script`: the trees of a script, each read from an empty arena;
* `statements_append`: the trees read so far have no influence on those that follow;
* `statements_of_semicolon`: a semicolon is skipped;
* `statements_of_statement`: a statement is read before those that follow it;
* `parseScript_of_ok`, `parseScript_of_error`, `parseScript_of_nil`: what becomes of a script.
-/

namespace TaggedSql

namespace Lockstep

open Statement

/-- A run beside itself of which nothing is known. -/
def heedless (policy : OverflowPolicy) : Lockstep :=
  alone
    { policy
      holds := fun _ => True
      fails := fun _ => True
      advance := fun _ _ _ => trivial
      problem := fun _ _ _ => trivial
      unexpected := fun _ _ => trivial
      range := fun _ _ _ => trivial } fun _ => False

theorem contexts_heedless (settings : Settings) (n : Nat) :
    (heedless settings.overflow).Contexts (context settings) (context settings) n := by
  refine contexts_context settings rfl rfl (fun s t hst => ?_) n
  exact .inr ⟨by rw [hst.1], trivial⟩

end Lockstep

namespace Statement

open Rule Lockstep

variable {settings : Settings} {source : String} {trees : List Tree} {s s' : ParseState}

/-- The statements that follow, behind the trees read so far. -/
abbrev statements (settings : Settings) (source : String) (trees : List Tree) : Rule (List Tree) :=
  iterate (extendScript settings source) trees

/-! ### The trees read so far -/

theorem extendScript_append (settings : Settings) (source : String) (done trees : List Tree) :
    extendScript settings source (done ++ trees) =
      Option.map (done ++ ·) <$> extendScript settings source trees := by
  unfold extendScript
  rw [map_bind]
  refine bind_congr fun _ => ?_
  rw [map_bind]
  refine bind_congr fun ends => ?_
  cases ends with
  | true => rfl
  | false =>
    simp only [Bool.false_eq_true, if_false, map_bind, List.append_assoc]
    refine bind_congr fun next => bind_congr fun ends => ?_
    cases ends with
    | true => rfl
    | false => simp only [Bool.false_eq_true, if_false, map_bind, map_pure, Option.map_some]

/-- Every further statement takes a token. -/
theorem size_lt_of_extendScript {trees' : List Tree}
    (h : extendScript settings source trees s = .ok (some trees') s') :
    s'.stream.size < s.stream.size := by
  -- The trees read so far do not matter, so there may be none.
  have hrun : (Option.map (trees ++ ·) <$> extendScript settings source []) s =
      .ok (some trees') s' := by
    rw [← extendScript_append, List.append_nil]
    exact h
  cases hnone : extendScript settings source [] s with
  | error e s₁ =>
    rw [map_of_error hnone] at hrun
    cases hrun
  | ok o s₁ =>
    rw [map_of_ok hnone] at hrun
    cases o with
    | none => cases hrun
    | some trees₁ =>
      cases hrun
      have hagrees := follows_extendScript source source whole_alone
        (contexts_heedless settings _) .nil s s ⟨⟨rfl, trivial⟩, rfl⟩ trivial (Nat.lt_succ_self _)
      rw [hnone] at hagrees
      cases hagrees with
      | ok j _ _ hj hleft _ =>
        have := hj rfl
        omega

theorem statements_append (settings : Settings) (source : String) (done : List Tree) :
    statements settings source done = (done ++ ·) <$> statements settings source [] := by
  have hmap := iterate_map (fun _ _ _ _ => size_lt_of_extendScript)
    (extendScript_append settings source done) []
  rwa [List.append_nil] at hmap

/-! ### What is read -/

/-- A single statement is a statement, perhaps a semicolon, and the end of the source. -/
theorem single_eq_ok {t : Tree} (h : single settings source s = .ok t s') :
    checkSpelling s = .ok () s ∧ ∃ s₁ found, tree settings source s = .ok t s₁ ∧
      eat (.symbol .semicolon) s₁ = .ok found s' ∧ s'.stream.current.isEnd = true := by
  obtain ⟨_, s₀, hspelled, hrest⟩ := bind_eq_ok h
  obtain ⟨rfl, _⟩ := checkSpelling_eq_ok hspelled
  obtain ⟨t', s₁, htree, hrest⟩ := bind_eq_ok hrest
  obtain ⟨found, s₂, heat, hrest⟩ := bind_eq_ok hrest
  rw [bind_of_ok (atEnd_run s₂)] at hrest
  cases hend : s₂.stream.current.isEnd with
  | false =>
    rw [hend] at hrest
    cases hrest
  | true =>
    rw [hend] at hrest
    cases hrest
    exact ⟨hspelled, s₁, found, htree, heat, hend⟩

/-- Behind semicolons the source ends, or a further statement stands there. That one is the last of the
source, or a semicolon stands behind it. -/
theorem extendScript_eq_ok {o : Option (List Tree)}
    (h : extendScript settings source trees s = .ok o s') :
    ∃ s₁, skipSemicolons s = .ok () s₁ ∧
      (s₁.stream.current.isEnd = true ∧ o = none ∧ s' = s₁ ∨
        ∃ t s₂, tree settings source s₁ = .ok t s₂ ∧ o = some (trees ++ [t]) ∧
          (s' = s₂ ∨ expect (.symbol .semicolon) s₂ = .ok () s')) := by
  obtain ⟨_, s₁, hskip, hrest⟩ := bind_eq_ok h
  refine ⟨s₁, hskip, ?_⟩
  rw [bind_of_ok (atEnd_run s₁)] at hrest
  cases hend : s₁.stream.current.isEnd with
  | true =>
    rw [hend] at hrest
    cases hrest
    exact .inl ⟨rfl, rfl, rfl⟩
  | false =>
    rw [hend] at hrest
    obtain ⟨t, s₂, htree, hrest⟩ := bind_eq_ok hrest
    rw [bind_of_ok (atEnd_run s₂)] at hrest
    cases hlast : s₂.stream.current.isEnd with
    | true =>
      rw [hlast] at hrest
      cases hrest
      exact .inr ⟨t, _, htree, rfl, .inl rfl⟩
    | false =>
      rw [hlast] at hrest
      obtain ⟨_, s₃, hexpect, hrest⟩ := bind_eq_ok hrest
      cases hrest
      exact .inr ⟨t, s₂, htree, rfl, .inr hexpect⟩

/-- A script is read from its first statement on, and it has one. -/
theorem script_eq_ok {trees' : List Tree} (h : script settings source s = .ok trees' s') :
    checkSpelling s = .ok () s ∧ statements settings source [] s = .ok trees' s' ∧ trees' ≠ [] := by
  obtain ⟨_, s₀, hspelled, hrest⟩ := bind_eq_ok h
  obtain ⟨rfl, _⟩ := checkSpelling_eq_ok hspelled
  obtain ⟨trees'', s₂, hrun, hrest⟩ := bind_eq_ok hrest
  cases htrees : trees''.isEmpty with
  | true =>
    rw [htrees] at hrest
    cases hrest
  | false =>
    rw [htrees] at hrest
    cases hrest
    exact ⟨hspelled, hrun, List.isEmpty_eq_false_iff.1 htrees⟩

/-! ### The end of a script -/

/-- A script ends where no further statement follows. -/
theorem isEnd_of_extendScript (h : extendScript settings source trees s = .ok none s') :
    s'.stream.current.isEnd = true := by
  obtain ⟨s₁, _, ⟨hend, _, rfl⟩ | ⟨_, _, _, hsome, _⟩⟩ := extendScript_eq_ok h
  · exact hend
  · cases hsome

/-- The statements of a script are read to the end of the source. -/
theorem isEnd_of_statements {trees' : List Tree}
    (h : statements settings source trees s = .ok trees' s') :
    s'.stream.current.isEnd = true := by
  obtain ⟨s₁, hlast⟩ := exists_last_step (fun _ _ _ _ => size_lt_of_extendScript) h
  exact isEnd_of_extendScript hlast

theorem isEnd_of_script {trees' : List Tree} (h : script settings source s = .ok trees' s') :
    s'.stream.current.isEnd = true :=
  isEnd_of_statements (script_eq_ok h).2.1

theorem isEnd_of_single {t : Tree} (h : single settings source s = .ok t s') :
    s'.stream.current.isEnd = true := by
  obtain ⟨_, _, _, _, _, hend⟩ := single_eq_ok h
  exact hend

/-! ### The arena behind a call -/

/-- A tree takes all nodes with it. -/
theorem arena_of_tree {t : Tree} (h : tree settings source s = .ok t s') : s'.arena = {} := by
  obtain ⟨root, s₁, _, h⟩ := bind_eq_ok h
  cases h
  rfl

theorem arena_of_eat {t : Terminal} {b : Bool} (h : eat t s = .ok b s') : s'.arena = s.arena := by
  rcases eat_eq_ok h with ⟨_, _, rfl⟩ | ⟨_, rfl⟩ <;> rfl

theorem arena_of_expect {t : Terminal} {a : Unit} (h : expect t s = .ok a s') :
    s'.arena = s.arena := by
  obtain ⟨b, s₁, heat, h⟩ := bind_eq_ok h
  cases b with
  | true =>
    cases h
    exact arena_of_eat heat
  | false => cases h

theorem arena_of_skipSemicolons {a : Unit} (h : skipSemicolons s = .ok a s') :
    s'.arena = s.arena := by
  have hstep : ∀ s₁ o s₂, (do if ← eat (.symbol .semicolon) then return some () else return none :
      Rule (Option Unit)) s₁ = .ok o s₂ → s₂.arena = s₁.arena := by
    intro s₁ o s₂ h
    obtain ⟨b, s₃, heat, h⟩ := bind_eq_ok h
    have harena := arena_of_eat heat
    cases b with
    | true =>
      cases h
      exact harena
    | false =>
      cases h
      exact harena
  refine iterate_induction (R := fun _ s₁ => s₁.arena = s.arena) ?_ ?_ rfl h
  · intro _ s₁ s₂ hs h
    exact (hstep s₁ _ s₂ h).trans hs
  · intro _ s₁ _ s₂ hs h
    exact (hstep s₁ _ s₂ h).trans hs

/-- Behind a further statement the arena is empty, and otherwise it is as it was. -/
theorem arena_of_extendScript {o : Option (List Tree)}
    (h : extendScript settings source trees s = .ok o s') :
    match o with
    | none => s'.arena = s.arena
    | some _ => s'.arena = {} := by
  obtain ⟨s₁, hskip, ⟨_, rfl, rfl⟩ | ⟨t, s₂, htree, rfl, rfl | hexpect⟩⟩ := extendScript_eq_ok h
  · exact arena_of_skipSemicolons hskip
  · exact arena_of_tree htree
  · exact (arena_of_expect hexpect).trans (arena_of_tree htree)

theorem arena_of_single {t : Tree} (h : single settings source s = .ok t s') : s'.arena = {} := by
  obtain ⟨_, s₁, _, htree, heat, _⟩ := single_eq_ok h
  exact (arena_of_eat heat).trans (arena_of_tree htree)

/-- A script that is read has statements, and the last one leaves an empty arena. -/
theorem arena_of_script {trees' : List Tree} (h : script settings source s = .ok trees' s') :
    s'.arena = {} := by
  obtain ⟨_, hrun, hne⟩ := script_eq_ok h
  refine iterate_induction (R := fun trees s => trees ≠ [] → s.arena = {}) ?_ ?_
    (fun hne => absurd rfl hne) hrun hne
  · intro trees s₃ s₄ hs hstep hne
    exact (arena_of_extendScript hstep).trans (hs hne)
  · intro trees s₃ trees' s₄ _ hstep _
    exact arena_of_extendScript hstep

/-! ### The trees of a script -/

/-- A further statement of a script begins with an empty arena if no nodes are left over. -/
theorem exists_tree_of_extendScript {o : Option (List Tree)}
    (h : extendScript settings source trees s = .ok o s') (hempty : s.arena = {}) :
    s'.arena = {} ∧ ∀ t ∈ o.getD trees, t ∈ trees ∨
      ∃ s₁ s₂, s₁.arena = {} ∧ tree settings source s₁ = .ok t s₂ := by
  have harena := arena_of_extendScript h
  obtain ⟨s₁, hskip, ⟨_, rfl, _⟩ | ⟨next, s₂, htree, rfl, _⟩⟩ := extendScript_eq_ok h
  · exact ⟨harena.trans hempty, fun t ht => .inl ht⟩
  · refine ⟨harena, fun t ht => ?_⟩
    rcases List.mem_append.1 ht with ht | ht
    · exact .inl ht
    · rw [List.mem_singleton.1 ht]
      exact .inr ⟨s₁, s₂, (arena_of_skipSemicolons hskip).trans hempty, htree⟩

/-- Each tree of a script is read from an empty arena if no nodes were left over before the script. -/
theorem exists_tree_of_script {trees' : List Tree} {t : Tree}
    (h : script settings source s = .ok trees' s') (hempty : s.arena = {}) (ht : t ∈ trees') :
    ∃ s₁ s₂, s₁.arena = {} ∧ tree settings source s₁ = .ok t s₂ := by
  obtain ⟨_, hrun, _⟩ := script_eq_ok h
  have hall : s'.arena = {} ∧ ∀ t ∈ trees',
      ∃ s₁ s₂, s₁.arena = {} ∧ tree settings source s₁ = .ok t s₂ := by
    refine iterate_induction
      (R := fun trees s => s.arena = {} ∧ ∀ t ∈ trees,
        ∃ s₁ s₂, s₁.arena = {} ∧ tree settings source s₁ = .ok t s₂)
      ?_ ?_ ⟨hempty, List.forall_mem_nil _⟩ hrun
    · rintro trees s₃ s₄ ⟨hempty, htrees⟩ hstep
      exact ⟨(exists_tree_of_extendScript hstep hempty).1, htrees⟩
    · rintro trees s₃ trees' s₄ ⟨hempty, htrees⟩ hstep
      obtain ⟨hempty', hmem⟩ := exists_tree_of_extendScript hstep hempty
      exact ⟨hempty', fun t ht => (hmem t ht).elim (htrees t) id⟩
  exact hall.2 t ht

/-! ### Semicolons -/

theorem size_advance_lt {s : Stream} (h : s.current.kind = .symbol .semicolon) :
    s.advance.size < s.size := by
  have := Stream.size_advance (s := s) (by rw [h]; exact Kind.noConfusion)
  omega

/-- A semicolon at the front is taken. -/
theorem eat_semicolon (h : s.stream.current.kind = .symbol .semicolon) :
    eat (.symbol .semicolon) s =
      (checkSpelling >>= fun _ => pure true) ⟨s.stream.advance, s.arena⟩ := by
  have hat : at? (.symbol .semicolon) s = .ok true s := by rw [at?_run, h]; rfl
  rw [eat, bind_of_ok hat]
  rfl

theorem eat_semicolon_of_ne (h : s.stream.current.kind ≠ .symbol .semicolon) :
    eat (.symbol .semicolon) s = .ok false s := eat_of_ne h

/-- A semicolon that has to stand at the front is taken. -/
theorem expect_semicolon (h : s.stream.current.kind = .symbol .semicolon) :
    expect (.symbol .semicolon) s = checkSpelling ⟨s.stream.advance, s.arena⟩ := by
  have heat := eat_semicolon h
  rw [expect]
  cases hspelling : checkSpelling ⟨s.stream.advance, s.arena⟩ with
  | error e s₁ =>
    rw [bind_of_error hspelling] at heat
    exact bind_of_error heat
  | ok _ s₁ =>
    rw [bind_of_ok hspelling] at heat
    exact bind_of_ok heat

theorem expect_semicolon_of_ne (h : s.stream.current.kind ≠ .symbol .semicolon) :
    expect (.symbol .semicolon) s =
      .error (.unexpected (.terminal (.symbol .semicolon)) s.stream.current) s := by
  rw [expect, bind_of_ok (eat_semicolon_of_ne h)]
  rfl

theorem skipSemicolons_of_ne (h : s.stream.current.kind ≠ .symbol .semicolon) :
    skipSemicolons s = .ok () s := by
  refine iterate_of_none ?_
  rw [bind_of_ok (eat_semicolon_of_ne h)]
  rfl

/-- A semicolon is skipped, unless a misspelled token stands behind it. -/
theorem skipSemicolons_of_semicolon (h : s.stream.current.kind = .symbol .semicolon) :
    skipSemicolons s = (checkSpelling >>= fun _ => skipSemicolons) ⟨s.stream.advance, s.arena⟩ := by
  have heat := eat_semicolon h
  cases hspelling : checkSpelling ⟨s.stream.advance, s.arena⟩ with
  | error e s₁ =>
    rw [bind_of_error hspelling] at heat
    rw [bind_of_error hspelling]
    exact iterate_of_error (bind_of_error heat)
  | ok _ s₁ =>
    obtain ⟨rfl, _⟩ := checkSpelling_eq_ok hspelling
    rw [bind_of_ok hspelling] at heat
    rw [bind_of_ok hspelling]
    exact iterate_of_some (bind_of_ok heat) (size_advance_lt h)

theorem extendScript_of_semicolon (h : s.stream.current.kind = .symbol .semicolon) :
    extendScript settings source trees s =
      (checkSpelling >>= fun _ => extendScript settings source trees)
        ⟨s.stream.advance, s.arena⟩ := by
  have hskip := skipSemicolons_of_semicolon h
  unfold extendScript
  cases hspelling : checkSpelling ⟨s.stream.advance, s.arena⟩ with
  | error e s₁ =>
    rw [bind_of_error hspelling] at hskip
    rw [bind_of_error hspelling, bind_of_error hskip]
  | ok _ s₁ =>
    rw [bind_of_ok hspelling] at hskip
    rw [bind_of_ok hspelling]
    show EStateM.bind _ _ _ = EStateM.bind _ _ _
    rw [EStateM.bind, EStateM.bind, hskip]

/-- A semicolon before the statements that follow is skipped, unless a misspelled token stands behind
it. -/
theorem statements_of_semicolon (h : s.stream.current.kind = .symbol .semicolon) :
    statements settings source trees s =
      (checkSpelling >>= fun _ => statements settings source trees)
        ⟨s.stream.advance, s.arena⟩ := by
  have hextend : extendScript settings source trees s = _ := extendScript_of_semicolon h
  cases hspelling : checkSpelling ⟨s.stream.advance, s.arena⟩ with
  | error e s₁ =>
    rw [bind_of_error hspelling] at hextend
    rw [bind_of_error hspelling]
    exact iterate_of_error hextend
  | ok _ s₁ =>
    obtain ⟨rfl, _⟩ := checkSpelling_eq_ok hspelling
    rw [bind_of_ok hspelling] at hextend
    rw [bind_of_ok hspelling]
    cases hrun : extendScript settings source trees ⟨s.stream.advance, s.arena⟩ with
    | error e s₁ =>
      exact (iterate_of_error (hextend.trans hrun)).trans (iterate_of_error hrun).symm
    | ok o s₁ =>
      cases o with
      | none => exact (iterate_of_none (hextend.trans hrun)).trans (iterate_of_none hrun).symm
      | some trees' =>
        have hless := size_lt_of_extendScript hrun
        have hless' := Nat.lt_trans hless (size_advance_lt h)
        exact (iterate_of_some (hextend.trans hrun) hless').trans (iterate_of_some hrun hless).symm

/-! ### Statements -/

theorem statements_of_end (h : s.stream.current.isEnd = true) :
    statements settings source trees s = .ok trees s := by
  have hsemicolon : s.stream.current.kind ≠ .symbol .semicolon := by
    rw [eq_of_beq h]
    exact Kind.noConfusion
  refine iterate_of_none ?_
  rw [extendScript, bind_of_ok (skipSemicolons_of_ne hsemicolon), bind_of_ok (atEnd_run s), h]
  rfl

/-- Fails unless a statement can end here. -/
def divided : Rule Unit := do
  require (← current).kind.closes (.terminal (.symbol .semicolon))

theorem divided_of_closes (h : s.stream.current.kind.closes = true) : divided s = .ok () s := by
  rw [divided, bind_of_ok (current_run s), require, if_pos h]
  rfl

theorem divided_of_open (h : s.stream.current.kind.closes = false) : divided s =
    .error (.unexpected (.terminal (.symbol .semicolon)) s.stream.current) s := by
  rw [divided, bind_of_ok (current_run s), require, h]
  rfl

theorem closes_of_divided {a : Unit} (h : divided s = .ok a s') :
    s' = s ∧ s.stream.current.kind.closes = true := by
  cases hcloses : s.stream.current.kind.closes with
  | true =>
    rw [divided_of_closes hcloses] at h
    cases h
    exact ⟨rfl, rfl⟩
  | false =>
    rw [divided_of_open hcloses] at h
    cases h

/-- A statement at the front is read, and what divides it from the next is left to be skipped. -/
theorem statements_of_statement (hsemicolon : s.stream.current.kind ≠ .symbol .semicolon)
    (hend : s.stream.current.isEnd = false) :
    statements settings source trees s = (do
      let next ← tree settings source
      divided
      statements settings source (trees ++ [next]) : Rule (List Tree)) s := by
  have hextend : extendScript settings source trees s = (do
      let next ← tree settings source
      unless ← atEnd do expect (.symbol .semicolon)
      return some (trees ++ [next]) : Rule (Option (List Tree))) s := by
    rw [extendScript, bind_of_ok (skipSemicolons_of_ne hsemicolon), bind_of_ok (atEnd_run s), hend]
    rfl
  cases htree : tree settings source s with
  | error e s₁ =>
    rw [bind_of_error htree] at hextend ⊢
    exact iterate_of_error hextend
  | ok next s₁ =>
    rw [bind_of_ok htree] at hextend ⊢
    rw [bind_of_ok (atEnd_run s₁)] at hextend
    cases hend' : s₁.stream.current.isEnd with
    | true =>
      rw [hend'] at hextend
      have hcloses : s₁.stream.current.kind.closes = true := by rw [eq_of_beq hend']; rfl
      rw [bind_of_ok (divided_of_closes hcloses)]
      exact iterate_of_some hextend (size_lt_of_extendScript hextend)
    | false =>
      rw [hend'] at hextend
      by_cases hsemicolon' : s₁.stream.current.kind = .symbol .semicolon
      · have hcloses : s₁.stream.current.kind.closes = true := by rw [hsemicolon']; rfl
        rw [bind_of_ok (divided_of_closes hcloses), statements_of_semicolon hsemicolon']
        have hexpect := expect_semicolon hsemicolon'
        cases hspelling : checkSpelling ⟨s₁.stream.advance, s₁.arena⟩ with
        | error e s₂ =>
          rw [hspelling] at hexpect
          rw [bind_of_error hspelling]
          exact iterate_of_error (hextend.trans (bind_of_error hexpect))
        | ok _ s₂ =>
          obtain ⟨rfl, _⟩ := checkSpelling_eq_ok hspelling
          rw [hspelling] at hexpect
          rw [bind_of_ok hspelling]
          have hsome := hextend.trans (bind_of_ok hexpect)
          exact iterate_of_some hsome (size_lt_of_extendScript hsome)
      · have hcloses : s₁.stream.current.kind.closes = false := by
          rw [Bool.eq_false_iff]
          intro hcloses
          rcases Kind.closes_iff.1 hcloses with hkind | hkind
          · exact hsemicolon' hkind
          · rw [Token.isEnd, hkind] at hend'
            cases hend'
        rw [bind_of_error (divided_of_open hcloses)]
        exact iterate_of_error (hextend.trans (bind_of_error (expect_semicolon_of_ne hsemicolon')))

/-! ### Whole scripts -/

/-- The trees of a script, of which there may be none. -/
def scriptTrees (settings : Settings) (source : String) : Rule (List Tree) := do
  checkSpelling
  statements settings source []

theorem script_eq (settings : Settings) (source : String) : script settings source = (do
    let trees ← scriptTrees settings source
    if trees.isEmpty then unexpected .statement else return trees) := by
  rw [script, scriptTrees, bind_assoc]

end Statement

open Rule Statement

section Results

variable {settings : Settings} {source : String} {s' : ParseState}

/-- What becomes of a script with statements. -/
theorem parseScript_of_ok {trees : List Tree} (htrees : trees ≠ [])
    (h : scriptTrees settings source (Session.start settings source).state = .ok trees s') :
    parseScript settings source = .ok trees := by
  have hrun : script settings source (Session.start settings source).state = .ok trees s' := by
    rw [script_eq, bind_of_ok h, List.isEmpty_eq_false_iff.2 htrees]
    rfl
  show (Session.run _ (script settings source)).1 = _
  rw [Session.run, hrun]

theorem parseScript_of_error {e : Failure}
    (h : scriptTrees settings source (Session.start settings source).state = .error e s') :
    parseScript settings source = .error e := by
  have hrun : script settings source (Session.start settings source).state = .error e s' := by
    rw [script_eq, bind_of_error h]
  show (Session.run _ (script settings source)).1 = _
  rw [Session.run, hrun]

/-- A script without statements fails at the end of its source. -/
theorem parseScript_of_nil
    (h : scriptTrees settings source (Session.start settings source).state = .ok [] s') :
    ∃ t, t.isEnd = true ∧ parseScript settings source = .error (.unexpected .statement t) := by
  obtain ⟨_, s₁, _, hstatements⟩ := bind_eq_ok h
  refine ⟨s'.stream.current, isEnd_of_statements hstatements, ?_⟩
  have hrun : script settings source (Session.start settings source).state =
      .error (.unexpected .statement s'.stream.current) s' := by
    rw [script_eq, bind_of_ok h]
    rfl
  show (Session.run _ (script settings source)).1 = _
  rw [Session.run, hrun]

/-- A script that is read has statements. -/
theorem scriptTrees_of_parseScript {trees : List Tree} (h : parseScript settings source = .ok trees) :
    trees ≠ [] ∧
      ∃ s', scriptTrees settings source (Session.start settings source).state = .ok trees s' := by
  cases hrun : scriptTrees settings source (Session.start settings source).state with
  | error e s' =>
    rw [parseScript_of_error hrun] at h
    cases h
  | ok trees' s' =>
    cases trees' with
    | nil =>
      obtain ⟨_, _, hnil⟩ := parseScript_of_nil hrun
      rw [hnil] at h
      cases h
    | cons t ts =>
      rw [parseScript_of_ok (List.cons_ne_nil _ _) hrun] at h
      cases h
      exact ⟨List.cons_ne_nil _ _, s', rfl⟩

/-- A script fails at one of its statements, or it has none. -/
theorem scriptTrees_of_parseScript_error {e : Failure}
    (h : parseScript settings source = .error e) :
    (∃ s', scriptTrees settings source (Session.start settings source).state = .error e s') ∨
      ∃ t, t.isEnd = true ∧ e = .unexpected .statement t := by
  cases hrun : scriptTrees settings source (Session.start settings source).state with
  | error e' s' =>
    rw [parseScript_of_error hrun] at h
    cases h
    exact .inl ⟨s', rfl⟩
  | ok trees s' =>
    cases trees with
    | nil =>
      obtain ⟨t, ht, hnil⟩ := parseScript_of_nil hrun
      rw [hnil] at h
      cases h
      exact .inr ⟨t, ht, rfl⟩
    | cons t ts =>
      rw [parseScript_of_ok (List.cons_ne_nil _ _) hrun] at h
      cases h

end Results

end TaggedSql
