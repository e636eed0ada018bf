import TaggedSql.Proofs.Building.Statements
import TaggedSql.Proofs.Session.Script
import TaggedSql.Session

/-!
# The trees of a session

Every tree that is read encodes a statement, and nothing of the source is lost in it: the operands of
the tree stand for the names and literals among the tokens, each once and in the order of the source.

* `parse_conforms`: the trees of a statement and of a script have the shape of statements;
* `parse_keeps_operands`: the operands of a tree stand for the tokens of its source.
-/

namespace TaggedSql

open Rule Arena Form Statement

variable {settings : Settings} {source : String} {s s' : ParseState} {t : Tree}

/-- A tree that encodes a statement, as a list that the tag of a statement heads. -/
structure Tree.Conforms (t : Tree) : Prop where
  shape : IsStatement (t.form t.root)
  head : ∃ tag items, t.form t.root = .list (.tag tag :: items) ∧ tag.isStatement = true

/-- Where the end of the source stands at the front of some of its tokens, nothing stands behind. -/
theorem Stream.rest_eq_single {s : Stream} {ts : List Token} {stop : Nat}
    (hopen : ∀ t ∈ ts, t.isEnd = false) (hsuffix : s.rest <:+ ts ++ [Token.endAt stop])
    (hend : s.current.isEnd = true) : s.rest = [Token.endAt s.stop] := by
  cases hahead : s.ahead with
  | nil => rw [Stream.rest, hahead, List.nil_append]
  | cons t us =>
    obtain ⟨before, hbefore⟩ := hsuffix
    rw [Stream.rest, hahead, ← List.append_assoc] at hbefore
    have hmem : t ∈ ts := by
      rw [← (List.append_inj' hbefore rfl).1]
      simp
    rw [Stream.current, Stream.peek, hahead] at hend
    exact absurd ((hopen t hmem).symm.trans hend) Bool.false_ne_true

/-! ### Single trees -/

/-- What a tree is whose statement was read from an arena, and how it is spelled. -/
theorem exists_of_tree (h : tree settings source s = .ok t s') (hsound : s.arena.Sound) :
    t.Conforms ∧ Spells (walk (t.form t.root)) s.stream.rest s'.stream.rest ∧ s'.arena = {} := by
  obtain ⟨root, s₁, hstatement, hrest⟩ := bind_eq_ok h
  obtain ⟨w, hw, _, f, hf, hP, rfl⟩ :=
    builds_statement (builds_context settings settings.maxDepth) s root s₁ hstatement trivial hsound
      trivial
  cases hrest
  have hform : Tree.form ⟨source, s₁.arena, root⟩ root = f := hf.form
  refine ⟨⟨?_, ?_⟩, ?_, rfl⟩
  · rw [hform]
    exact hP
  · rw [hform]
    exact hP.exists_head
  · rw [hform]
    exact hw

/-- Behind the tree of a single statement stands nothing but perhaps a semicolon. -/
theorem exists_of_single (h : single settings source s = .ok t s') :
    ∃ s₁, tree settings source s = .ok t s₁ ∧ Spells [] s₁.stream.rest s'.stream.rest ∧
      s'.stream.current.isEnd = true := by
  obtain ⟨_, s₁, _, htree, heat, hend⟩ := single_eq_ok h
  refine ⟨s₁, htree, ?_, hend⟩
  rcases eat_eq_ok heat with ⟨_, hsemicolon, rfl⟩ | ⟨_, rfl⟩
  · exact s₁.stream.spells_silent (by rw [hsemicolon]; rfl)
  · exact .done _

/-! ### Sessions -/

theorem Session.run_eq_ok {α : Type} {session : Session} {rule : Rule α} {a : α}
    (h : (session.run rule).1 = .ok a) : ∃ s', rule session.state = .ok a s' := by
  rw [Session.run] at h
  cases hrun : rule session.state with
  | error e s' =>
    rw [hrun] at h
    cases h
  | ok b s' =>
    rw [hrun] at h
    cases h
    exact ⟨s', rfl⟩

theorem eq_ok_of_toOption {ε α : Type} {r : Except ε α} {a : α} (h : r.toOption = some a) :
    r = .ok a := by
  cases r with
  | error e => cases h
  | ok b =>
    cases h
    rfl

/-- Every tree that is read, from a statement or from a script, encodes a statement. -/
theorem parse_conforms (settings : Settings) (source : String) :
    (∀ t, parse settings source = .ok t → t.Conforms) ∧
      ∀ trees, parseScript settings source = .ok trees → ∀ t ∈ trees, t.Conforms := by
  constructor
  · intro t h
    obtain ⟨s', hsingle⟩ := Session.run_eq_ok h
    obtain ⟨_, htree, _⟩ := exists_of_single hsingle
    exact (exists_of_tree htree sound_empty).1
  · intro trees h t ht
    obtain ⟨s', hscript⟩ := Session.run_eq_ok h
    obtain ⟨_, _, hempty, htree⟩ := exists_tree_of_script hscript rfl ht
    exact (exists_of_tree htree (hempty ▸ sound_empty)).1

/-- A statement with an aggregate and limits, a script of two statements, and their trees. -/
theorem parse_conforms_aggregate :
    (∃ t, parse {} "SELECT sum(a) FILTER (WHERE b) FROM c LIMIT 2, 3" = .ok t ∧ t.Conforms) ∧
      ∃ t u, parseScript {} "DELETE FROM a; VALUES (1) UNION VALUES (2)" = .ok [t, u] ∧
        t.Conforms ∧ u.Conforms := by
  constructor
  · have hread : (parse {} "SELECT sum(a) FILTER (WHERE b) FROM c LIMIT 2, 3").toOption.isSome =
        true := by decide +kernel
    obtain ⟨t, ht⟩ := Option.isSome_iff_exists.1 hread
    have hparse := eq_ok_of_toOption ht
    exact ⟨t, hparse, (parse_conforms {} _).1 t hparse⟩
  · have hread : (parseScript {} "DELETE FROM a; VALUES (1) UNION VALUES (2)").toOption.map
        List.length = some 2 := by decide +kernel
    obtain ⟨trees, htrees, hlength⟩ := Option.map_eq_some_iff.1 hread
    obtain ⟨t, u, rfl⟩ := List.length_eq_two.1 hlength
    have hscript := eq_ok_of_toOption htrees
    have hall := (parse_conforms {} _).2 _ hscript
    exact ⟨t, u, hscript, hall t (by simp), hall u (by simp)⟩

/-- The operands of a tree stand for the tokens of its source: each name and each literal of the source
stands in the tree once, in the order of the source. -/
theorem parse_keeps_operands (settings : Settings) (source : String) (t : Tree)
    (h : parse settings source = .ok t) :
    Spells (walk (t.form t.root)) (tokenize settings.overflow source) [] := by
  obtain ⟨s', hsingle⟩ := Session.run_eq_ok h
  obtain ⟨s₁, htree, hsilent, hend⟩ := exists_of_single hsingle
  obtain ⟨_, hspells, _⟩ := exists_of_tree htree sound_empty
  have hspells' := hspells.append hsilent
  -- Only the end of the source is left, which stands for no operand.
  rw [Stream.rest_eq_single (fun _ => isEnd_of_mem_ahead) hspells'.suffix hend] at hspells'
  have hwhole := hspells'.append (.silent rfl (.done []))
  rw [List.append_nil, List.append_nil] at hwhole
  rwa [tokenize_eq]

/-- A call that counts rows under a condition, the least integer and limits with a comma. -/
theorem parse_keeps_operands_limits :
    ∃ t, parse {} "SELECT count(*) FILTER (WHERE -9223372036854775808) LIMIT 1, :a" = .ok t ∧
      Spells (walk (t.form t.root))
        (tokenize .promote "SELECT count(*) FILTER (WHERE -9223372036854775808) LIMIT 1, :a") [] := by
  have hread : (parse {}
      "SELECT count(*) FILTER (WHERE -9223372036854775808) LIMIT 1, :a").toOption.isSome = true := by
    decide +kernel
  obtain ⟨t, ht⟩ := Option.isSome_iff_exists.1 hread
  have hparse := eq_ok_of_toOption ht
  exact ⟨t, hparse, parse_keeps_operands {} _ t hparse⟩

end TaggedSql
