import TaggedSql.Proofs.Statement.Clauses

/-!
# Printed sources are read back

A source is read as a table reference and the joins that follow it. What is known of reading a query
is a hypothesis here, so that sources and queries can be tied together afterwards.

* `Source.Reads`: a source is read back as far as its own joins go, and where it is no join also as
  a table reference;
* `Query.Reads`: a query is read back;
* `Source.reads_aliased`, `Source.reads_join`, `Source.reads_query`: a source is read back if its
  parts are.
-/

namespace TaggedSql

open Piece Rule Arena Statement Query
open TaggedSql.Expr (guardedDepth)

variable {source : String} {settings : Settings} {room : Nat} {ps rest : List Piece} {c : Context}
  {s left right : Source}

/-! ### Joins -/

/-- Whether a join begins with a token of the kind. -/
def Kind.startsJoin : Kind → Bool
  | .word .JOIN | .word .INNER | .word .CROSS | .word .LEFT => true
  | _ => false

theorem Kind.startsJoin_of_rank {k : Kind} (h : 1 ≤ k.rank) : k.startsJoin = false := by
  unfold Kind.rank at h
  split at h
  all_goals first | rfl | omega

/-- A source ends where no join follows. -/
theorem takes_extendJoin_none {K : Arena → Prop} (left : NodeId)
    (h : (kindAt 0 rest).startsJoin = false) :
    Takes source K (extendJoin c left) [] rest fun o A => o = none ∧ K A := by
  rw [extendJoin, joinOperator?, bind_assoc]
  refine Leads.currentWord? ?_
  rw [List.nil_append]
  split
  next hword => rw [Kind.eq_word_of_word? hword] at h; cases h
  next hword => rw [Kind.eq_word_of_word? hword] at h; cases h
  next hword => rw [Kind.eq_word_of_word? hword] at h; cases h
  next hword => rw [Kind.eq_word_of_word? hword] at h; cases h
  next =>
    rw [pure_bind]
    exact Takes.done fun A hA => ⟨rfl, hA⟩

/-- The words of a join are read back as its tag. -/
theorem takes_joinOperator (kind : JoinKind) :
    Takes source (fun _ => True) joinOperator? kind.pieces rest fun o _ => o = some kind.tag := by
  rw [joinOperator?]
  cases kind with
  | plain =>
    refine Leads.currentWord? ?_
    refine Leads.expect (t := .word .JOIN) ?_
    exact Takes.done fun _ _ => rfl
  | inner =>
    refine Leads.currentWord? ?_
    refine Leads.advance ?_
    refine Leads.expect (t := .word .JOIN) ?_
    exact Takes.done fun _ _ => rfl
  | cross =>
    refine Leads.currentWord? ?_
    refine Leads.advance ?_
    refine Leads.expect (t := .word .JOIN) ?_
    exact Takes.done fun _ _ => rfl
  | left =>
    refine Leads.currentWord? ?_
    refine Leads.advance ?_
    refine Leads.skip (by simp) ?_
    refine Leads.expect (t := .word .JOIN) ?_
    exact Takes.done fun _ _ => rfl
  | leftOuter =>
    refine Leads.currentWord? ?_
    refine Leads.advance ?_
    refine Leads.eat (t := .word .OUTER) ?_
    refine Leads.expect (t := .word .JOIN) ?_
    exact Takes.done fun _ _ => rfl

theorem JoinKind.isFree_pieces (kind : JoinKind) (rest : List Piece) :
    isFree (kindAt 0 (kind.pieces ++ rest)) = true := by
  cases kind <;> (simp [JoinKind.pieces]; decide)

theorem JoinKind.pieces_ne_nil (kind : JoinKind) : kind.pieces ≠ [] := by
  cases kind <;> exact List.cons_ne_nil _ _

/-! ### Reading sources -/

/-- With room for what it encloses, a source is read back as far as its own joins go, and where it is
no join, also as a table reference. -/
structure Source.Reads (s : Source) : Prop where
  joins : ∀ (source : String) (settings : Settings) (room : Nat) (rest : List Piece),
    s.depth ≤ room → isFree (kindAt 0 rest) = true →
    Leads source (fun _ => True) (joinSource (contextOf settings room)) s.pieces rest
      (fun id A => Shows source A id s.datum) (iterate (extendJoin (contextOf settings room)))
  reference : 1 ≤ s.level →
    ∀ (source : String) (settings : Settings) (room : Nat) (rest : List Piece), s.depth ≤ room →
    kindAt 0 rest ≠ .symbol .dot → (kindAt 0 rest).isIdentifier = false →
    kindAt 0 rest ≠ .word .AS →
    Takes source (fun _ => True) (tableReference (contextOf settings room)) s.pieces rest
      fun id A => Shows source A id s.datum
  primary : 2 ≤ s.level →
    ∀ (source : String) (settings : Settings) (room : Nat) (rest : List Piece), s.depth ≤ room →
    kindAt 0 rest ≠ .symbol .dot →
    Takes source (fun _ => True) (tablePrimary (contextOf settings room)) s.pieces rest
      fun id A => Shows source A id s.datum

/-- With room for what it encloses, a query is read back. -/
def Query.Reads (q : Query) : Prop :=
  ∀ (source : String) (settings : Settings) (room : Nat) (rest : List Piece),
    q.depth ≤ room → 8 ≤ (kindAt 0 rest).rank →
    Takes source (fun _ => True) (Query.query (contextOf settings room)) q.pieces rest
      fun id A => Shows source A id q.datum

/-- A source ends before what follows the sources of a core. -/
theorem Source.Reads.all (h : s.Reads) (hdepth : s.depth ≤ room)
    (hfree : isFree (kindAt 0 rest) = true) (hjoin : (kindAt 0 rest).startsJoin = false) :
    Takes source (fun _ => True) (joinSource (contextOf settings room)) s.pieces rest
      fun id A => Shows source A id s.datum :=
  Leads.close (h.joins source settings room rest hdepth hfree) fun left =>
    takes_extendJoin_none left hjoin

/-- A table reference is a source without joins. -/
theorem Source.reads_of_reference (hlevel : s.level ≤ 1)
    (h : ∀ (source : String) (settings : Settings) (room : Nat) (rest : List Piece),
      s.depth ≤ room → kindAt 0 rest ≠ .symbol .dot → (kindAt 0 rest).isIdentifier = false →
      kindAt 0 rest ≠ .word .AS →
      Takes source (fun _ => True) (tableReference (contextOf settings room)) s.pieces rest
        fun id A => Shows source A id s.datum) : s.Reads where
  joins source settings room rest hdepth hrest := by
    obtain ⟨hlight, hname, has, _⟩ := isFree_iff.1 hrest
    exact Takes.leads (h source settings room rest hdepth (ne_of_isLight hlight).1 hname has)
  reference _ := h
  primary hprimary := absurd hlevel (by omega)

/-- What stands before an alias is a table reference without one. -/
theorem Source.reads_of_primary
    (h : ∀ (source : String) (settings : Settings) (room : Nat) (rest : List Piece),
      s.depth ≤ room → kindAt 0 rest ≠ .symbol .dot →
      Takes source (fun _ => True) (tablePrimary (contextOf settings room)) s.pieces rest
        fun id A => Shows source A id s.datum) : s.Reads := by
  have href : ∀ (source : String) (settings : Settings) (room : Nat) (rest : List Piece),
      s.depth ≤ room → kindAt 0 rest ≠ .symbol .dot → (kindAt 0 rest).isIdentifier = false →
      kindAt 0 rest ≠ .word .AS →
      Takes source (fun _ => True) (tableReference (contextOf settings room)) s.pieces rest
        fun id A => Shows source A id s.datum := by
    intro source settings room rest hdepth hdot hname has
    rw [tableReference_eq, ← List.append_nil s.pieces]
    refine Takes.seq (h source settings room rest hdepth hdot) fun id => ?_
    exact (takes_withAlias id none hname has).weaken fun A hA => hA.2
  refine ⟨fun source settings room rest hdepth hrest => ?_, fun _ => href, fun _ => h⟩
  obtain ⟨hlight, hname, has, _⟩ := isFree_iff.1 hrest
  exact Takes.leads (href source settings room rest hdepth (ne_of_isLight hlight).1 hname has)

/-- No query begins as a source does. -/
theorem Source.startsQuery : (s : Source) → (rest : List Piece) →
    (kindAt 0 (s.pieces ++ rest)).startsQuery = false
  | .table name, rest => by
    rw [Source.pieces, TableName.pieces]
    cases name.schema <;> simp [Kind.startsQuery]
  | .aliased s label, rest => by
    rw [Source.pieces, List.append_assoc, guarded]
    split
    next => rfl
    next => exact s.startsQuery _
  | .join _ left _ _, rest => by
    rw [Source.pieces, List.append_assoc]
    exact left.startsQuery _
  | .query _, rest => rfl

/-- A source in parentheses is read back on a level of its own. -/
theorem Source.Reads.parenthesized (h : s.Reads) (hdepth : s.depth < room) :
    Takes source (fun _ => True) (tablePrimary (contextOf settings room))
      (symbol .leftParen :: (s.pieces ++ [symbol .rightParen])) rest
      fun id A => Shows source A id s.datum := by
  obtain ⟨room, rfl⟩ : ∃ k, room = k + 1 := ⟨room - 1, by omega⟩
  rw [tablePrimary]
  refine Leads.eat (t := .symbol .leftParen) ?_
  rw [if_pos rfl]
  refine Takes.seq (P := fun id A => Shows source A id s.datum) ?_ fun id => ?_
  · show Takes source _ (tableSource (contextOf settings room)) s.pieces _ _
    rw [tableSource]
    refine Leads.atQuery ?_
    rw [s.startsQuery, if_neg Bool.false_ne_true]
    exact h.all (by omega) rfl rfl
  · refine Leads.expect ?_
    exact Takes.done fun A hA => hA.2

/-- A source is read back before an alias, in parentheses where it needs them. -/
theorem Source.Reads.guardedPrimary (h : s.Reads)
    (hdepth : guardedDepth 2 s.level s.depth ≤ room) (hdot : kindAt 0 rest ≠ .symbol .dot) :
    Takes source (fun _ => True) (tablePrimary (contextOf settings room))
      (guarded 2 s.level s.pieces) rest fun id A => Shows source A id s.datum := by
  rw [guardedDepth] at hdepth
  rw [guarded]
  by_cases hlevel : s.level < 2
  · rw [if_pos hlevel] at hdepth ⊢
    exact h.parenthesized (by omega)
  · rw [if_neg hlevel] at hdepth ⊢
    exact h.primary (by omega) source settings room rest hdepth hdot

/-- A source is read back as a right operand, in parentheses where it needs them. -/
theorem Source.Reads.guardedReference (h : s.Reads)
    (hdepth : guardedDepth 1 s.level s.depth ≤ room) (hdot : kindAt 0 rest ≠ .symbol .dot)
    (hname : (kindAt 0 rest).isIdentifier = false) (has : kindAt 0 rest ≠ .word .AS) :
    Takes source (fun _ => True) (tableReference (contextOf settings room))
      (guarded 1 s.level s.pieces) rest fun id A => Shows source A id s.datum := by
  rw [guardedDepth] at hdepth
  rw [guarded]
  by_cases hlevel : s.level < 1
  · rw [if_pos hlevel] at hdepth ⊢
    rw [tableReference_eq, ← List.append_nil (symbol .leftParen :: _)]
    refine Takes.seq (h.parenthesized (by omega)) fun id => ?_
    exact (takes_withAlias id none hname has).weaken fun A hA => hA.2
  · rw [if_neg hlevel] at hdepth ⊢
    exact h.reference (by omega) source settings room rest hdepth hdot hname has

/-! ### Each kind of source -/

theorem Source.reads_table (name : TableName) : (Source.table name).Reads := by
  refine Source.reads_of_primary fun source settings room rest _ hdot => ?_
  rw [tablePrimary]
  refine Leads.skip ?_ (takes_tableName name hdot)
  rw [Source.pieces, TableName.pieces]
  cases name.schema <;> simp

theorem Source.reads_aliased (label : Alias) (h : s.Reads) : (Source.aliased s label).Reads := by
  refine Source.reads_of_reference (Nat.le_refl 1)
    fun source settings room rest hdepth hdot hname has => ?_
  rw [tableReference_eq, Source.pieces]
  refine Takes.seq (h.guardedPrimary hdepth (kindAt_aliasOf_ne_dot (some label) hdot)) fun id => ?_
  exact (takes_withAlias id (some label) hname has).weaken fun A hA => hA.2

theorem Source.reads_query {q : Query} (h : q.Reads)
    (hstart : ∀ rest, (kindAt 0 (q.pieces ++ rest)).startsQuery = true) :
    (Source.query q).Reads := by
  refine Source.reads_of_primary fun source settings room rest hdepth _ => ?_
  rw [Source.depth] at hdepth
  obtain ⟨room, rfl⟩ : ∃ k, room = k + 2 := ⟨room - 2, by omega⟩
  rw [tablePrimary, Source.pieces]
  refine Leads.eat (t := .symbol .leftParen) ?_
  rw [if_pos rfl]
  refine Takes.seq (P := fun id A => Shows source A id q.datum) ?_ fun id => ?_
  · show Takes source _ (tableSource (contextOf settings (room + 1))) q.pieces _ _
    rw [tableSource]
    refine Leads.atQuery ?_
    rw [hstart, if_pos rfl]
    exact h source settings room _ (by omega) (Nat.le_refl 8)
  · refine Leads.expect ?_
    exact Takes.done fun A hA => hA.2

/-- What stands behind the right operand of a join belongs to no table reference. -/
theorem kindAt_onClause (condition : Option Expr) (hrest : isFree (kindAt 0 rest) = true) :
    kindAt 0 (Piece.condition .ON condition ++ rest) ≠ .symbol .dot ∧
      (kindAt 0 (Piece.condition .ON condition ++ rest)).isIdentifier = false ∧
      kindAt 0 (Piece.condition .ON condition ++ rest) ≠ .word .AS := by
  cases condition with
  | none =>
    obtain ⟨hlight, hname, has, _⟩ := isFree_iff.1 hrest
    exact ⟨(ne_of_isLight hlight).1, hname, has⟩
  | some e => simp [Piece.condition, Kind.isIdentifier]

theorem Source.reads_join (kind : JoinKind) (condition : Option Expr) (hleft : left.Reads)
    (hright : right.Reads) : (Source.join kind left right condition).Reads := by
  refine ⟨fun source settings room rest hdepth hrest => ?_, nofun, nofun⟩
  rw [Source.depth] at hdepth
  obtain ⟨hlight, _, _, hon⟩ := isFree_iff.1 hrest
  obtain ⟨hdot, hname, has⟩ := kindAt_onClause condition hrest
  have hfree : isFree (kindAt 0 ((kind.pieces ++ (guarded 1 right.level right.pieces ++
      Piece.condition .ON condition)) ++ rest)) = true := by
    rw [List.append_assoc]
    exact kind.isFree_pieces _
  rw [Source.pieces]
  refine Leads.extend (hleft.joins source settings room _ (by omega) hfree) (fun id => ?_) ?_
  · rw [extendJoin]
    refine Takes.seqEq (v := some kind.tag) (takes_joinOperator kind) ?_
    refine Takes.seq (hright.guardedReference (by omega) hdot hname has) fun rightId => ?_
    refine Leads.pushTag fun head => ?_
    refine Leads.pushTag fun mark => ?_
    rw [joinCondition_eq, ← List.append_nil (Piece.condition .ON condition)]
    refine Takes.seq (takes_condition .ON .onClause condition (by omega) hlight hon) fun ids => ?_
    have hparts : ∀ A, (((Shows source A id left.datum ∧ Shows source A rightId right.datum) ∧
        Shows source A head (.tag .join)) ∧ Shows source A mark (.tag kind.tag)) ∧
        ShowsAll source A ids (Datum.condition .onClause condition) →
        ShowsAll source A ([head, mark, id, rightId] ++ ids)
          ([.tag .join, .tag kind.tag, left.datum, right.datum] ++
            Datum.condition .onClause condition) := by
      rintro A ⟨⟨⟨⟨hid, hrightId⟩, hhead⟩, hmark⟩, hids⟩
      exact showsAll_cons.2 ⟨hhead, showsAll_cons.2 ⟨hmark, showsAll_cons.2 ⟨hid,
        showsAll_cons.2 ⟨hrightId, hids⟩⟩⟩⟩
    refine Leads.pushList hparts fun join => ?_
    exact Takes.done fun A hA => ⟨join, rfl, hA.2⟩
  · intro hnil
    exact kind.pieces_ne_nil (List.append_eq_nil_iff.1 hnil).1

end TaggedSql
