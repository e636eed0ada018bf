import TaggedSql.Proofs.Expression.Atoms
import TaggedSql.Proofs.Printing.Lined
import TaggedSql.Proofs.Session.Encoding
import TaggedSql.Proofs.Token.Policy
import TaggedSql.Proofs.Tree.Ownership

/-!
# Selecting one expression

A source that is the word `SELECT` and one expression is read as that expression is, and fails as it
does. Together with the lexemes of a text this gives the trees of sources with one or two operands, and
the reasons why some are refused.

* `Query.query_expression`: a query of one column goes on as its expression does;
* `Tree.Selects`: the tree of such a query;
* `selects_operand`, `selects_least`, `selects_negated`, `selects_difference`: sources that are read;
* `refuses_problem`, `refuses_least`, `refuses_difference`: sources that are refused.
-/

namespace TaggedSql

open Rule

/-! ### Queries of one column -/

/-- Whether a column that begins with a token of the kind is an expression. -/
def Kind.startsColumn : Kind → Bool
  | .symbol .star | .word .DISTINCT | .word .ALL | .problem _ => false
  | _ => true

theorem Kind.ne_of_startsColumn {k l : Kind} (hk : k.startsColumn = true)
    (hl : l.startsColumn = false) : k ≠ l := by
  rintro rfl
  rw [hl] at hk
  cases hk

namespace Query

variable {c : Context} {t select : Token} {ts : List Token} {stop : Nat}

theorem resultColumn_expression (ht : t.kind.startsColumn = true)
    (hsecond : (Stream.mk ts stop).current.kind ≠ .symbol .dot) (A : Arena) :
    resultColumn c ⟨⟨t :: ts, stop⟩, A⟩ = (c.expression >>= withAlias) ⟨⟨t :: ts, stop⟩, A⟩ := by
  have hstar : eat (.symbol .star) ⟨⟨t :: ts, stop⟩, A⟩ = .ok false ⟨⟨t :: ts, stop⟩, A⟩ :=
    eat_of_ne (Kind.ne_of_startsColumn ht rfl)
  have hdot : ((Stream.mk (t :: ts) stop).peek 1).kind ≠ .symbol .dot := by
    rw [← Stream.peek_advance]
    exact hsecond
  rw [resultColumn, bind_of_ok hstar]
  simp only [Bool.false_eq_true, if_false]
  rw [bind_of_ok (current_run _), bind_of_ok (peek_run 1 _), bind_of_ok (peek_run 2 _),
    beq_false_of_ne hdot, Bool.and_false, Bool.false_and]
  rfl

theorem rowMark_of_startsColumn (ht : t.kind.startsColumn = true) (A : Arena) :
    rowMark ⟨⟨t :: ts, stop⟩, A⟩ = .ok [] ⟨⟨t :: ts, stop⟩, A⟩ := by
  have hdistinct : eat (.word .DISTINCT) ⟨⟨t :: ts, stop⟩, A⟩ = .ok false ⟨⟨t :: ts, stop⟩, A⟩ :=
    eat_of_ne (Kind.ne_of_startsColumn ht rfl)
  have hall : eat (.word .ALL) ⟨⟨t :: ts, stop⟩, A⟩ = .ok false ⟨⟨t :: ts, stop⟩, A⟩ :=
    eat_of_ne (Kind.ne_of_startsColumn ht rfl)
  rw [rowMark, bind_of_ok hdistinct]
  simp only [Bool.false_eq_true, if_false]
  rw [bind_of_ok hall]
  rfl

theorem columns_at_end (id : NodeId) (A : Arena) :
    (withAlias id >>= fun first => iterate (fun items => do
      if ← eat (.symbol .comma) then return some (items ++ [← resultColumn c]) else return none)
        [first]) ⟨⟨[], stop⟩, A⟩ = .ok [id] ⟨⟨[], stop⟩, A⟩ := by
  have halias : withAlias id ⟨⟨[], stop⟩, A⟩ = .ok id ⟨⟨[], stop⟩, A⟩ := rfl
  rw [bind_of_ok halias]
  exact iterate_of_none rfl

theorem selectParts_expression (hselect : select.kind = .word .SELECT)
    (ht : t.kind.startsColumn = true)
    (hsecond : (Stream.mk ts stop).current.kind ≠ .symbol .dot) (A : Arena) :
    ∃ k : NodeId → Rule (List NodeId), selectParts c ⟨⟨select :: t :: ts, stop⟩, A⟩ =
        (c.expression >>= k) ⟨⟨t :: ts, stop⟩, A.push (.tag .select)⟩ ∧
      ∀ id B, k id ⟨⟨[], stop⟩, B⟩ = .ok [A.size, B.size] ⟨⟨[], stop⟩, B.pushList [id]⟩ := by
  have hspelled : ∀ p, (Stream.mk (t :: ts) stop).current.kind ≠ .problem p :=
    fun p => Kind.ne_of_startsColumn ht rfl
  have hexpect : expect (.word .SELECT) ⟨⟨select :: t :: ts, stop⟩, A⟩ =
      .ok () ⟨⟨t :: ts, stop⟩, A⟩ := expect_of_eq hselect hspelled
  have hpush : pushTag .select ⟨⟨t :: ts, stop⟩, A⟩ =
      .ok A.size ⟨⟨t :: ts, stop⟩, A.push (.tag .select)⟩ := rfl
  rw [selectParts, bind_of_ok hexpect, bind_of_ok hpush,
    bind_of_ok (rowMark_of_startsColumn ht _)]
  have hcolumns := bind_of_bind (f := fun first => iterate (fun items => do
      if ← eat (.symbol .comma) then return some (items ++ [← resultColumn c]) else return none)
        [first]) (resultColumn_expression (c := c) ht hsecond (A.push (.tag .select)))
  refine ⟨_, bind_of_bind hcolumns, fun id B => ?_⟩
  rw [bind_of_ok (columns_at_end id B)]
  rfl

/-- A query of one column that is an expression up to the end. -/
theorem query_expression (hselect : select.kind = .word .SELECT)
    (ht : t.kind.startsColumn = true)
    (hsecond : (Stream.mk ts stop).current.kind ≠ .symbol .dot) (A : Arena) :
    ∃ k : NodeId → Rule NodeId, query c ⟨⟨select :: t :: ts, stop⟩, A⟩ =
        (c.expression >>= k) ⟨⟨t :: ts, stop⟩, A.push (.tag .select)⟩ ∧
      ∀ id B, k id ⟨⟨[], stop⟩, B⟩ =
        .ok (B.size + 1) ⟨⟨[], stop⟩, (B.pushList [id]).pushList [A.size, B.size]⟩ := by
  obtain ⟨k, hparts, hk⟩ := selectParts_expression (c := c) hselect ht hsecond A
  have hcurrent : (Stream.mk (select :: t :: ts) stop).current.kind = .word .SELECT := hselect
  have hcore : coreParts c ⟨⟨select :: t :: ts, stop⟩, A⟩ =
      selectParts c ⟨⟨select :: t :: ts, stop⟩, A⟩ := by
    rw [coreParts, bind_of_ok (at?_run _ _), hcurrent]
    rfl
  have hquery : query c ⟨⟨select :: t :: ts, stop⟩, A⟩ = chain c ⟨⟨select :: t :: ts, stop⟩, A⟩ := by
    rw [query, bind_of_ok (at?_run _ _), hcurrent]
    rfl
  rw [hquery]
  refine ⟨_, bind_of_bind (hcore.trans hparts), fun id B => ?_⟩
  have hchain : iterate (extendChain c) [A.size, B.size] ⟨⟨[], stop⟩, B.pushList [id]⟩ =
      .ok [A.size, B.size] ⟨⟨[], stop⟩, B.pushList [id]⟩ := iterate_of_none rfl
  rw [bind_of_ok (hk id B), bind_of_ok hchain]
  have horder : orderByClause c ⟨⟨[], stop⟩, B.pushList [id]⟩ =
      .ok [] ⟨⟨[], stop⟩, B.pushList [id]⟩ := rfl
  have hlimits : limitClause c ⟨⟨[], stop⟩, B.pushList [id]⟩ =
      .ok [] ⟨⟨[], stop⟩, B.pushList [id]⟩ := rfl
  rw [bind_of_ok horder, bind_of_ok hlimits]
  show EStateM.Result.ok (B.pushList [id]).size _ = _
  simp [Arena.size, Arena.pushList]

/-- A query whose column begins with a misspelled token. -/
theorem query_problem (hselect : select.kind = .word .SELECT) {p : Problem}
    (ht : t.kind = .problem p) (A : Arena) :
    query c ⟨⟨select :: t :: ts, stop⟩, A⟩ = .error (.lexical p t) ⟨⟨t :: ts, stop⟩, A⟩ := by
  have hcurrent : (Stream.mk (select :: t :: ts) stop).current.kind = .word .SELECT := hselect
  have hadvance : advance ⟨⟨select :: t :: ts, stop⟩, A⟩ = .error (.lexical p t) ⟨⟨t :: ts, stop⟩, A⟩ :=
    checkSpelling_run_problem (s := ⟨⟨t :: ts, stop⟩, A⟩) ht
  have heat : eat (.word .SELECT) ⟨⟨select :: t :: ts, stop⟩, A⟩ =
      .error (.lexical p t) ⟨⟨t :: ts, stop⟩, A⟩ := by
    rw [eat, bind_of_ok (at?_run _ _), hcurrent]
    exact bind_of_error hadvance
  have hparts : selectParts c ⟨⟨select :: t :: ts, stop⟩, A⟩ =
      .error (.lexical p t) ⟨⟨t :: ts, stop⟩, A⟩ := bind_of_error (bind_of_error heat)
  have hcore : coreParts c ⟨⟨select :: t :: ts, stop⟩, A⟩ =
      .error (.lexical p t) ⟨⟨t :: ts, stop⟩, A⟩ := by
    rw [coreParts, bind_of_ok (at?_run _ _), hcurrent]
    exact hparts
  rw [query, bind_of_ok (at?_run _ _), hcurrent]
  exact bind_of_error hcore

end Query

/-! ### Sources -/

section Sources

open Statement

variable {settings : Settings} {source : String} {select t : Token} {ts : List Token} {stop : Nat}

theorem Session.run_of_ok {α : Type} (session : Session) {rule : Rule α} {a : α} {s : ParseState}
    (h : rule session.state = .ok a s) : (session.run rule).1 = .ok a := by
  rw [Session.run, h]

theorem Session.run_of_error {α : Type} (session : Session) {rule : Rule α} {e : Failure}
    {s : ParseState} (h : rule session.state = .error e s) : (session.run rule).1 = .error e := by
  rw [Session.run, h]

theorem statement_query (hselect : select.kind = .word .SELECT) (A : Arena) :
    statement (context settings) ⟨⟨select :: ts, stop⟩, A⟩ =
      enter settings settings.maxDepth .query ⟨⟨select :: ts, stop⟩, A⟩ := by
  have hcurrent : (Stream.mk (select :: ts) stop).current.kind = .word .SELECT := hselect
  rw [statement, bind_of_ok (currentWord?_run _), hcurrent]
  rfl

theorem parse_of_query_error {e : Failure} {s' : ParseState}
    (hstream : Stream.ofSource settings.overflow source = ⟨select :: ts, stop⟩)
    (hselect : select.kind = .word .SELECT)
    (h : enter settings settings.maxDepth .query ⟨⟨select :: ts, stop⟩, {}⟩ = .error e s') :
    parse settings source = .error e := by
  have hspelled : checkSpelling ⟨⟨select :: ts, stop⟩, {}⟩ = .ok () ⟨⟨select :: ts, stop⟩, {}⟩ :=
    checkSpelling_run fun p hp => Kind.noConfusion (hselect.symm.trans hp)
  have htree : tree settings source ⟨⟨select :: ts, stop⟩, {}⟩ = .error e s' :=
    bind_of_error ((statement_query hselect {}).trans h)
  have hsingle : single settings source ⟨⟨select :: ts, stop⟩, {}⟩ = .error e s' := by
    rw [single, bind_of_ok hspelled]
    exact bind_of_error htree
  rw [← hstream] at hsingle
  exact Session.run_of_error (Session.start settings source) hsingle

theorem parse_of_query_ok {root : NodeId} {A : Arena}
    (hstream : Stream.ofSource settings.overflow source = ⟨select :: ts, stop⟩)
    (hselect : select.kind = .word .SELECT)
    (h : enter settings settings.maxDepth .query ⟨⟨select :: ts, stop⟩, {}⟩ =
      .ok root ⟨⟨[], stop⟩, A⟩) :
    parse settings source = .ok ⟨source, A, root⟩ := by
  have hspelled : checkSpelling ⟨⟨select :: ts, stop⟩, {}⟩ = .ok () ⟨⟨select :: ts, stop⟩, {}⟩ :=
    checkSpelling_run fun p hp => Kind.noConfusion (hselect.symm.trans hp)
  have htree : tree settings source ⟨⟨select :: ts, stop⟩, {}⟩ =
      .ok ⟨source, A, root⟩ ⟨⟨[], stop⟩, {}⟩ := by
    rw [tree, bind_of_ok ((statement_query hselect {}).trans h)]
    rfl
  have hsingle : single settings source ⟨⟨select :: ts, stop⟩, {}⟩ =
      .ok ⟨source, A, root⟩ ⟨⟨[], stop⟩, {}⟩ := by
    rw [single, bind_of_ok hspelled, bind_of_ok htree]
    rfl
  rw [← hstream] at hsingle
  exact Session.run_of_ok (Session.start settings source) hsingle

end Sources

/-! ### The trees of selections -/

open Arena

/-- The tree is that of a query of one column, which has a datum. -/
structure Tree.Selects (t : Tree) (id : NodeId) (d : Datum) : Prop where
  datum : t.datum = .tagged .select [.list [d]]
  path : t.descend? t.root [1, 0] = some id
  column : t.arena.Shows t.source id d

/-- A name, string or blob is a node of its kind, whose span covers its text. -/
def Arena.Covers (source : String) (a : Arena) (id : NodeId) : Datum → Prop
  | .name text => ∃ span, a.nodes[id]? = some (.name span) ∧ span.slice source = text
  | .string text => ∃ span, a.nodes[id]? = some (.string span) ∧ span.slice source = text
  | .blob text => ∃ span, a.nodes[id]? = some (.blob span) ∧ span.slice source = text
  | _ => True

theorem Arena.Shows.covers {a : Arena} {source : String} {id : NodeId} {d : Datum}
    (h : a.Shows source id d) : a.Covers source id d := by
  obtain ⟨node, hnode⟩ : ∃ node, a.nodes[id]? = some node := ⟨_, Array.getElem?_eq_getElem h.lt⟩
  have hread := h.read
  cases node with
  | list r =>
    rw [form_of_list hnode, Form.read_list] at hread
    subst hread
    trivial
  | tag _ | integer _ | float _ =>
    rw [form_of_leaf hnode rfl] at hread
    subst hread
    trivial
  | name span | string span | blob span =>
    rw [form_of_leaf hnode rfl] at hread
    subst hread
    exact ⟨span, hnode, rfl⟩

variable {settings : Settings} {source : String} {select t : Token} {ts : List Token} {stop : Nat}
  {d : Datum} {room : Nat}

/-- The tag of a selection stands alone before its column is read. -/
theorem sound_select : (({} : Arena).push (.tag .select)).Sound := (grows_push rfl).sound sound_empty

/-- A source that is read as a query of one column. -/
theorem selects_of_yields (hdepth : settings.maxDepth = room + 1)
    (hstream : Stream.ofSource settings.overflow source = ⟨select :: t :: ts, stop⟩)
    (hselect : select.kind = .word .SELECT) (ht : t.kind.startsColumn = true)
    (hsecond : (Stream.mk ts stop).current.kind ≠ .symbol .dot)
    (h : Yields source (Statement.enter settings room (.expression 0))
      ⟨⟨t :: ts, stop⟩, ({} : Arena).push (.tag .select)⟩ [] d) :
    ∃ tree id, parse settings source = .ok tree ∧ tree.source = source ∧ tree.Selects id d := by
  obtain ⟨id, B, hrun, hgrows, hshows⟩ := h
  obtain ⟨k, hquery, hk⟩ := Query.query_expression
    (c := ⟨settings.overflow, Statement.enter settings room⟩) hselect ht hsecond {}
  have hread : Statement.enter settings settings.maxDepth .query ⟨⟨select :: t :: ts, stop⟩, {}⟩ =
      .ok (B.size + 1) ⟨⟨[], stop⟩, (B.pushList [id]).pushList [0, B.size]⟩ := by
    rw [hdepth]
    exact hquery.trans ((bind_of_ok hrun).trans (hk id B))
  refine ⟨_, id, parse_of_query_ok hstream hselect hread, rfl, ?_⟩
  -- Two lists come behind the nodes of the column: that of the columns, and that of the query.
  have hB : B.Sound := hgrows.sound sound_select
  have hhead : B.Shows source 0 (.tag .select) :=
    (shows_push (a := {}) (f := .tag .select) rfl).mono sound_select hgrows
  have hcolumns := shows_pushList hB hshows.single
  have hgrows₁ : B.Grows (B.pushList [id]) := grows_pushList
  have hsound₁ := hgrows₁.sound hB
  have hboth : (B.pushList [id]).ShowsAll source [0, B.size] [.tag .select, .list [d]] :=
    showsAll_cons.2 ⟨hhead.mono hB hgrows₁, hcolumns.single⟩
  have hroot := shows_pushList hsound₁ hboth
  have hgrows₂ : (B.pushList [id]).Grows ((B.pushList [id]).pushList [0, B.size]) := grows_pushList
  have hsize : (B.pushList [id]).size = B.size + 1 := size_pushList
  rw [hsize] at hroot
  refine ⟨hroot.read, ?_, (hshows.mono hB hgrows₁).mono hsound₁ hgrows₂⟩
  have hitems : ((B.pushList [id]).pushList [0, B.size]).items (B.size + 1) = [0, B.size] := by
    rw [← hsize]
    exact Arena.items_pushList _ _
  have hcolumn : ((B.pushList [id]).pushList [0, B.size]).items B.size = [id] := by
    rw [hgrows₂.items_eq hsound₁ hcolumns.lt]
    exact Arena.items_pushList _ _
  simp [Tree.descend?, Tree.child?, Tree.items, hitems, hcolumn]

/-- A source that is refused because its only column is. -/
theorem refuses_of_error (hdepth : settings.maxDepth = room + 1)
    (hstream : Stream.ofSource settings.overflow source = ⟨select :: t :: ts, stop⟩)
    (hselect : select.kind = .word .SELECT) (ht : t.kind.startsColumn = true)
    (hsecond : (Stream.mk ts stop).current.kind ≠ .symbol .dot) {e : Failure} {s' : ParseState}
    (h : Statement.enter settings room (.expression 0)
      ⟨⟨t :: ts, stop⟩, ({} : Arena).push (.tag .select)⟩ = .error e s') :
    parse settings source = .error e := by
  obtain ⟨k, hquery, _⟩ := Query.query_expression
    (c := ⟨settings.overflow, Statement.enter settings room⟩) hselect ht hsecond {}
  have hfails : Statement.enter settings settings.maxDepth .query ⟨⟨select :: t :: ts, stop⟩, {}⟩ =
      .error e s' := by
    rw [hdepth]
    exact hquery.trans (bind_of_error h)
  exact parse_of_query_error hstream hselect hfails

theorem refuses_of_problem (hdepth : 1 ≤ settings.maxDepth)
    (hstream : Stream.ofSource settings.overflow source = ⟨select :: t :: ts, stop⟩)
    (hselect : select.kind = .word .SELECT) {p : Problem} (ht : t.kind = .problem p) :
    parse settings source = .error (.lexical p t) := by
  obtain ⟨room, hroom⟩ := Nat.exists_eq_add_of_le' hdepth
  have hfails : Statement.enter settings settings.maxDepth .query ⟨⟨select :: t :: ts, stop⟩, {}⟩ =
      .error (.lexical p t) ⟨⟨t :: ts, stop⟩, {}⟩ := by
    rw [hroom]
    exact Query.query_problem hselect ht {}
  exact parse_of_query_error hstream hselect hfails

/-! ### Sources with one operand -/

theorem slice_of_mem_ahead {policy : OverflowPolicy} (h : Stream.ofSource policy source = ⟨ts, stop⟩)
    (ht : t ∈ ts) : t.span.slice source = t.text := by
  have hmem : t ∈ tokenize policy source := by
    rw [tokenize_eq, h]
    exact List.mem_append_left _ ht
  exact slice_of_mem_tokenize hmem

/-- The stream of a source that is made of lexemes behind the word `SELECT`. -/
theorem exists_selection {policy : OverflowPolicy} {x : Lexeme} {xs : List Lexeme}
    {tail : List Char} (hx : x.ReadsBefore policy tail) (hxs : Lined policy xs tail) :
    ∃ select t ts stop,
      Stream.ofSource policy ("SELECT " ++ String.ofList (x.taken ++ tail)) =
        ⟨select :: t :: ts, stop⟩ ∧
      select.kind = .word .SELECT ∧ t.bare = x.bare ∧ ts.map Token.bare = xs.map Lexeme.bare := by
  obtain ⟨tokens, stop, hstream, hbare⟩ := (Lined.select hx hxs).exists_stream
  have hsource : String.ofList ("SELECT ".toList ++ (x.taken ++ tail)) =
      "SELECT " ++ String.ofList (x.taken ++ tail) := by
    rw [← String.toList_inj]
    simp
  rw [hsource] at hstream
  obtain ⟨select, more, rfl, hselect, hmore⟩ := List.map_eq_cons_iff.1 hbare
  obtain ⟨t, ts, rfl, ht, hts⟩ := List.map_eq_cons_iff.1 hmore
  exact ⟨select, t, ts, stop, hstream, congrArg Prod.fst hselect, ht, hts⟩

theorem Kind.startsColumn_of_operand? {k : Kind} {policy : OverflowPolicy} {text : String}
    (h : k.operand? policy text = some d) : k.startsColumn = true := by
  cases k with
  | word w =>
    cases w with
    | DISTINCT | ALL => cases h
    | _ => rfl
  | symbol _ | problem _ => cases h
  | _ => rfl

theorem Kind.ne_of_operand? {k l : Kind} {policy : OverflowPolicy} {text : String}
    (hk : k.operand? policy text = some d) (hl : l.operand? policy text = none) : k ≠ l := by
  rintro rfl
  rw [hl] at hk
  cases hk

theorem Kind.isProblem_of_operand? {k : Kind} {policy : OverflowPolicy} {text : String}
    (h : k.operand? policy text = some d) : k.isProblem = false := by
  cases k with
  | problem p => cases h
  | _ => rfl

/-- A token is the operand that its lexeme is. -/
theorem operand?_of_bare {x : Lexeme} {policy : OverflowPolicy} (ht : t.bare = x.bare)
    (h : x.kind.operand? policy (String.ofList x.body) = some d) :
    t.kind.operand? policy t.text = some d := by
  rw [show t.kind = x.kind from congrArg Prod.fst ht,
    show t.text = String.ofList x.body from congrArg Prod.snd ht]
  exact h

/-- An operand behind the word `SELECT` is the only column. -/
theorem selects_operand (hdepth : 2 ≤ settings.maxDepth) {x : Lexeme}
    (hx : x.ReadsBefore settings.overflow [])
    (hd : x.kind.operand? settings.overflow (String.ofList x.body) = some d) :
    ∃ tree id, parse settings ("SELECT " ++ String.ofList x.taken) = .ok tree ∧
      tree.source = "SELECT " ++ String.ofList x.taken ∧ tree.Selects id d := by
  obtain ⟨room, hroom⟩ := Nat.exists_eq_add_of_le' hdepth
  obtain ⟨select, t, ts, stop, hstream, hselect, ht, hts⟩ := exists_selection hx .nil
  obtain rfl : ts = [] := List.map_eq_nil_iff.1 hts
  rw [List.append_nil] at hstream
  have hslice := slice_of_mem_ahead hstream (t := t) (by simp)
  have hkind := operand?_of_bare ht hd
  refine selects_of_yields hroom hstream hselect (Kind.startsColumn_of_operand? hkind)
    (by simp [Stream.current, Stream.peek, Token.endAt]) ?_
  have hoperand : Yields _ (Expression.operand ⟨settings.overflow, Statement.enter settings room⟩)
      ⟨⟨[t], stop⟩, _⟩ [] d := yields_operand hkind hslice rfl sound_select
  exact hoperand.expression 0

/-- A misspelled token behind the word `SELECT` is the reason why the source is refused. -/
theorem refuses_problem (hdepth : 2 ≤ settings.maxDepth) {x : Lexeme} {p : Problem}
    (hx : x.ReadsBefore settings.overflow []) (hp : x.kind = .problem p) :
    ∃ t, parse settings ("SELECT " ++ String.ofList x.taken) = .error (.lexical p t) := by
  obtain ⟨select, t, ts, stop, hstream, hselect, ht, hts⟩ := exists_selection hx .nil
  rw [List.append_nil] at hstream
  have hkind : t.kind = .problem p := (congrArg Prod.fst ht).trans hp
  exact ⟨t, refuses_of_problem (by omega) hstream hselect hkind⟩

/-- The integer `2 ^ 63` behind the word `SELECT` is refused under the rejecting policy. -/
theorem refuses_least (hdepth : 2 ≤ settings.maxDepth) (hpolicy : settings.overflow = .reject)
    {x : Lexeme} (hx : x.ReadsBefore settings.overflow []) (hleast : x.kind = .leastMagnitude) :
    ∃ t, parse settings ("SELECT " ++ String.ofList x.taken) =
      .error (.lexical (.integerRange x.body) t) := by
  obtain ⟨room, hroom⟩ := Nat.exists_eq_add_of_le' hdepth
  obtain ⟨select, t, ts, stop, hstream, hselect, ht, hts⟩ := exists_selection hx .nil
  obtain rfl : ts = [] := List.map_eq_nil_iff.1 hts
  rw [List.append_nil] at hstream
  have hkind : t.kind = .leastMagnitude := (congrArg Prod.fst ht).trans hleast
  have htext : t.text.toList = x.body := by
    rw [show t.text = String.ofList x.body from congrArg Prod.snd ht, String.toList_ofList]
  have hfails : Statement.enter settings (room + 1) (.expression 0)
      ⟨⟨[t], stop⟩, ({} : Arena).push (.tag .select)⟩ =
        .error (.lexical (.integerRange t.text.toList) t) _ :=
    expression_out_of_range (c := ⟨settings.overflow, Statement.enter settings room⟩) hkind hpolicy 0
  rw [htext] at hfails
  refine ⟨t, refuses_of_error hroom hstream hselect (by rw [hkind]; rfl) ?_ hfails⟩
  simp [Stream.current, Stream.peek, Token.endAt]

/-! ### Sources with a minus sign -/

section Signs

variable {policy : OverflowPolicy} {x y : Lexeme} {lead : List Filler} {e : Datum}

/-- The lexeme of a minus sign. -/
abbrev minusSign : Lexeme := Lexeme.plain (.symbol .minus) ['-'] []

/-- The stream of a source that has a minus sign, any fillers and a lexeme behind the word `SELECT`. -/
theorem exists_signed (hsign : minusSign.ReadsBefore policy (Filler.texts lead ++ y.taken))
    (hy : y.ReadsBefore policy []) :
    ∃ select m t stop,
      Stream.ofSource policy ("SELECT -" ++ String.ofList (Filler.texts lead ++ y.taken)) =
        ⟨[select, m, t], stop⟩ ∧
      select.kind = .word .SELECT ∧ m.kind = .symbol .minus ∧ t.bare = y.bare := by
  have hlined := Lined.cons lead hy .nil
  rw [List.append_nil] at hlined
  obtain ⟨select, m, ts, stop, hstream, hselect, hm, hts⟩ := exists_selection hsign hlined
  obtain ⟨t, more, rfl, ht, hmore⟩ := List.map_eq_cons_iff.1 hts
  obtain rfl : more = [] := List.map_eq_nil_iff.1 hmore
  have hsource : "SELECT " ++ String.ofList (minusSign.taken ++ (Filler.texts lead ++ y.taken)) =
      "SELECT -" ++ String.ofList (Filler.texts lead ++ y.taken) := by
    rw [← String.toList_inj]
    simp [Lexeme.taken, Lexeme.plain]
  rw [hsource] at hstream
  exact ⟨select, m, t, stop, hstream, hselect, congrArg Prod.fst hm, ht⟩

/-- A minus sign before the integer `2 ^ 63` gives the least integer under either policy. -/
theorem selects_least (hdepth : 2 ≤ settings.maxDepth)
    (hsign : minusSign.ReadsBefore settings.overflow (Filler.texts lead ++ y.taken))
    (hy : y.ReadsBefore settings.overflow []) (hleast : y.kind = .leastMagnitude) :
    ∃ tree id, parse settings ("SELECT -" ++ String.ofList (Filler.texts lead ++ y.taken)) =
        .ok tree ∧
      tree.source = "SELECT -" ++ String.ofList (Filler.texts lead ++ y.taken) ∧
      tree.Selects id (.integer Int64.minValue) := by
  obtain ⟨room, hroom⟩ := Nat.exists_eq_add_of_le' hdepth
  obtain ⟨select, m, t, stop, hstream, hselect, hm, ht⟩ := exists_signed hsign hy
  have hkind : t.kind = .leastMagnitude := (congrArg Prod.fst ht).trans hleast
  refine selects_of_yields hroom hstream hselect (by rw [hm]; rfl) ?_ ?_
  · show t.kind ≠ _
    rw [hkind]
    exact Kind.noConfusion
  · exact (yields_least hm hkind).expression 0

/-- A minus sign before another operand is applied to it. -/
theorem selects_negated (hdepth : 3 ≤ settings.maxDepth)
    (hsign : minusSign.ReadsBefore settings.overflow (Filler.texts lead ++ y.taken))
    (hy : y.ReadsBefore settings.overflow []) (hleast : y.kind ≠ .leastMagnitude)
    (hd : y.kind.operand? settings.overflow (String.ofList y.body) = some d) :
    ∃ tree id, parse settings ("SELECT -" ++ String.ofList (Filler.texts lead ++ y.taken)) =
        .ok tree ∧
      tree.source = "SELECT -" ++ String.ofList (Filler.texts lead ++ y.taken) ∧
      tree.Selects id (.tagged .minus [d]) := by
  obtain ⟨room, hroom⟩ := Nat.exists_eq_add_of_le' hdepth
  obtain ⟨select, m, t, stop, hstream, hselect, hm, ht⟩ := exists_signed hsign hy
  have hslice := slice_of_mem_ahead hstream (t := t) (by simp)
  have hkind : t.kind = y.kind := congrArg Prod.fst ht
  have hd' := operand?_of_bare ht hd
  have hoperand : Yields _ (Expression.operand ⟨settings.overflow, Statement.enter settings room⟩)
      ⟨⟨[t], stop⟩, _⟩ [] d := yields_operand hd' hslice rfl sound_select
  refine selects_of_yields hroom hstream hselect (by rw [hm]; rfl) ?_ ?_
  · show t.kind ≠ _
    exact Kind.ne_of_operand? hd' rfl
  · have hnegated := yields_negated (c := ⟨settings.overflow, Statement.enter settings (room + 1)⟩) hm
      (hkind ▸ hleast) (fun p => Kind.ne_of_operand? hd' rfl) sound_select (hoperand.expression 17)
    exact hnegated.expression 0

/-- The stream of a source that has two lexemes with a minus sign between them. -/
theorem exists_difference (hx : x.ReadsBefore policy []) (hproper : x.kind.isProblem = false)
    (hy : y.ReadsBefore policy []) :
    ∃ select a m t stop,
      Stream.ofSource policy
          ("SELECT " ++ String.ofList x.taken ++ " - " ++ String.ofList y.taken) =
        ⟨[select, a, m, t], stop⟩ ∧
      select.kind = .word .SELECT ∧ a.bare = x.bare ∧ m.kind = .symbol .minus ∧ t.bare = y.bare := by
  have hlast := Lined.cons [.space] hy .nil
  rw [List.append_nil] at hlast
  have hsign : minusSign.ReadsBefore policy (Filler.texts [.space] ++ y.taken) :=
    readsBefore_minus (by decide) _
  have hlined := Lined.cons [.space] hsign hlast
  obtain ⟨select, a, ts, stop, hstream, hselect, ha, hts⟩ :=
    exists_selection (hx.parted hproper (b := ' ') (by decide) _) hlined
  obtain ⟨m, more, rfl, hm, hmore⟩ := List.map_eq_cons_iff.1 hts
  obtain ⟨t, more, rfl, ht, hmore⟩ := List.map_eq_cons_iff.1 hmore
  obtain rfl : more = [] := List.map_eq_nil_iff.1 hmore
  have hsource : "SELECT " ++ String.ofList (x.taken ++ (Filler.texts [.space] ++ (minusSign.taken ++
      (Filler.texts [.space] ++ y.taken)))) =
        "SELECT " ++ String.ofList x.taken ++ " - " ++ String.ofList y.taken := by
    rw [← String.toList_inj]
    simp [Lexeme.taken, Lexeme.plain, Filler.texts, Filler.space, Filler.text]
  rw [← hsource]
  exact ⟨select, a, m, t, stop, hstream, hselect, ha, congrArg Prod.fst hm, ht⟩

/-- Between two operands a minus sign is no part of the second one. -/
theorem selects_difference (hdepth : 3 ≤ settings.maxDepth)
    (hx : x.ReadsBefore settings.overflow [])
    (he : x.kind.operand? settings.overflow (String.ofList x.body) = some e)
    (hy : y.ReadsBefore settings.overflow [])
    (hd : y.kind.operand? settings.overflow (String.ofList y.body) = some d) :
    ∃ tree id,
      parse settings ("SELECT " ++ String.ofList x.taken ++ " - " ++ String.ofList y.taken) =
        .ok tree ∧ tree.Selects id (.tagged .minus [e, d]) := by
  obtain ⟨room, hroom⟩ := Nat.exists_eq_add_of_le' hdepth
  obtain ⟨select, a, m, t, stop, hstream, hselect, ha, hm, ht⟩ :=
    exists_difference hx (Kind.isProblem_of_operand? he) hy
  have he' := operand?_of_bare ha he
  have hd' := operand?_of_bare ht hd
  generalize "SELECT " ++ String.ofList x.taken ++ " - " ++ String.ofList y.taken = source at hstream ⊢
  have hfollows : (Stream.mk [m, t] stop).current.kind = .symbol .minus := hm
  have hleft : Yields source
      (Expression.operand ⟨settings.overflow, Statement.enter settings (room + 1)⟩)
      ⟨⟨[a, m, t], stop⟩, _⟩ [m, t] e :=
    yields_operand he' (slice_of_mem_ahead hstream (by simp)) (by rw [hfollows]; rfl) sound_select
  have hright : ∀ B : Arena, B.Sound → Yields source (Expression.expression
      ⟨settings.overflow, Statement.enter settings room⟩ 12) ⟨⟨[t], stop⟩, B⟩ [] d := by
    intro B hB
    exact (yields_operand hd' (slice_of_mem_ahead hstream (by simp)) rfl hB).expression 12
  have hdifference :=
    yields_difference hm (fun p => Kind.ne_of_operand? hd' rfl) sound_select hleft hright
  obtain ⟨tree, id, hparse, _, hselects⟩ := selects_of_yields hroom hstream hselect
    (Kind.startsColumn_of_operand? he') (by rw [hfollows]; decide) hdifference
  exact ⟨tree, id, hparse, hselects⟩

/-- The stream of a source under the rejecting policy, beside that under the promoting one. -/
theorem exists_weighed_stream (h : Stream.ofSource .promote source = ⟨ts, stop⟩) :
    ∃ us stop', Stream.ofSource .reject source = ⟨us, stop'⟩ ∧ List.Forall₂ Token.Weighed us ts := by
  have hweighed := forall₂_weighed_tokenize source
  rw [tokenize_eq, tokenize_eq] at hweighed
  have hahead := (Stream.forall₂_of_rest hweighed).1
  rw [h] at hahead
  exact ⟨_, _, rfl, hahead⟩

/-- Only a number in double precision can be refused under the other policy. -/
theorem Token.Weighed.kind_eq {u : Token} (h : t.Weighed u) (hfloat : u.kind.isFloat = false)
    (hproblem : u.kind.isProblem = false) : t.kind = u.kind := by
  rcases h.kind.promoted.eq_or with heq | ⟨_, hchanged, _⟩
  · exact heq
  · rw [Lexeme.floatKind] at hchanged
    split at hchanged
    next =>
      rw [hchanged] at hfloat
      cases hfloat
    next =>
      rw [hchanged] at hproblem
      cases hproblem

/-- An operand that is not the integer `2 ^ 63` is one under both policies. -/
theorem Kind.operand?_reject {k : Kind} {text : String} (hk : k ≠ .leastMagnitude) :
    k.operand? .reject text = k.operand? .promote text := by
  cases k with
  | leastMagnitude => exact absurd rfl hk
  | parameter named => cases named <;> rfl
  | _ => rfl

/-- The integer `2 ^ 63` is refused behind an operand and a minus sign, unless the operand is refused
for the same reason. -/
theorem enter_difference_out_of_range (room : Nat) (hpolicy : settings.overflow = .reject)
    {a m : Token}
    (hstream : Stream.ofSource settings.overflow source = ⟨[select, a, m, t], stop⟩)
    (ha : a.kind.operand? .promote a.text = some e) (hm : m.kind = .symbol .minus)
    (ht : t.kind = .leastMagnitude) {A : Arena} (hA : A.Sound) :
    ∃ digits token s', Statement.enter settings (room + 2) (.expression 0)
      ⟨⟨[a, m, t], stop⟩, A⟩ = .error (.lexical (.integerRange digits) token) s' := by
  by_cases hleast : a.kind = .leastMagnitude
  · exact ⟨_, a, _, expression_out_of_range (c := ⟨settings.overflow,
      Statement.enter settings (room + 1)⟩) hleast hpolicy 0⟩
  · have ha' : a.kind.operand? settings.overflow a.text = some e := by
      rw [hpolicy, Kind.operand?_reject hleast, ha]
    have hfollows : (Stream.mk [m, t] stop).current.kind = .symbol .minus := hm
    have hleft : Yields source
        (Expression.operand ⟨settings.overflow, Statement.enter settings (room + 1)⟩)
        ⟨⟨[a, m, t], stop⟩, A⟩ [m, t] e :=
      yields_operand ha' (slice_of_mem_ahead hstream (by simp)) (by rw [hfollows]; rfl) hA
    have hright : ∀ B, ∃ s', Statement.enter settings (room + 1) (.expression 12)
        ⟨⟨[t], stop⟩, B⟩ = .error (.lexical (.integerRange t.text.toList) t) s' := by
      intro B
      exact ⟨_, expression_out_of_range (c := ⟨settings.overflow, Statement.enter settings room⟩)
        ht hpolicy 12⟩
    have hspelled : ∀ p, t.kind ≠ .problem p := by
      intro p
      rw [ht]
      exact Kind.noConfusion
    obtain ⟨s', hfails⟩ := difference_out_of_range hm hspelled hleft hright
    exact ⟨_, t, s', hfails⟩

/-- Under the rejecting policy the integer `2 ^ 63` is refused behind a minus sign between operands,
unless the first operand is refused already. -/
theorem refuses_difference (hdepth : 3 ≤ settings.maxDepth) (hpolicy : settings.overflow = .reject)
    (hx : x.ReadsBefore .promote [])
    (he : x.kind.operand? .promote (String.ofList x.body) = some e)
    (hy : y.ReadsBefore .promote []) (hleast : y.kind = .leastMagnitude) :
    ∃ digits token,
      parse settings ("SELECT " ++ String.ofList x.taken ++ " - " ++ String.ofList y.taken) =
        .error (.lexical (.integerRange digits) token) := by
  obtain ⟨room, hroom⟩ := Nat.exists_eq_add_of_le' hdepth
  obtain ⟨select, a, m, t, stop, hstream, hselect, ha, hm, ht⟩ :=
    exists_difference hx (Kind.isProblem_of_operand? he) hy
  have he' := operand?_of_bare ha he
  have hkind : t.kind = .leastMagnitude := (congrArg Prod.fst ht).trans hleast
  generalize "SELECT " ++ String.ofList x.taken ++ " - " ++ String.ofList y.taken = source at hstream ⊢
  obtain ⟨us, stop', hstream', hweighed⟩ := exists_weighed_stream hstream
  -- The word, the sign and the integer behind it are the same tokens under both policies.
  obtain ⟨_, us₁, hselect', hweighed₁, rfl⟩ := List.forall₂_cons_right_iff.1 hweighed
  obtain ⟨a', us₂, ha', hweighed₂, rfl⟩ := List.forall₂_cons_right_iff.1 hweighed₁
  obtain ⟨_, us₃, hm', hweighed₃, rfl⟩ := List.forall₂_cons_right_iff.1 hweighed₂
  obtain ⟨_, us₄, ht', hweighed₄, rfl⟩ := List.forall₂_cons_right_iff.1 hweighed₃
  obtain rfl := List.forall₂_nil_right_iff.1 hweighed₄
  obtain rfl := hselect'.eq_of_kind (hselect'.kind_eq (by rw [hselect]; rfl) (by rw [hselect]; rfl))
  obtain rfl := hm'.eq_of_kind (hm'.kind_eq (by rw [hm]; rfl) (by rw [hm]; rfl))
  obtain rfl := ht'.eq_of_kind (ht'.kind_eq (by rw [hkind]; rfl) (by rw [hkind]; rfl))
  rw [← hpolicy] at hstream'
  rcases ha'.kind.promoted.eq_or with hsame | ⟨hproblem, _, _⟩
  · obtain rfl := ha'.eq_of_kind hsame
    obtain ⟨digits, token, s', hfails⟩ :=
      enter_difference_out_of_range room hpolicy hstream' he' hm hkind sound_select
    refine ⟨digits, token, refuses_of_error hroom hstream' hselect
      (Kind.startsColumn_of_operand? he') ?_ hfails⟩
    intro hdot
    cases hm.symm.trans hdot
  · exact ⟨_, a', refuses_of_problem (by omega) hstream' hselect hproblem⟩

end Signs

end TaggedSql
