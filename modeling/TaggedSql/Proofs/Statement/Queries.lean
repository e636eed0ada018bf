import TaggedSql.Proofs.Statement.Sources

/-!
# Printed queries are read back

Cores, chains of cores and named queries, and the mutual recursion that ties them to sources. The
clauses of a query come in a fixed order, so that behind each part stands a token of a greater rank.

* `rank_optional`: behind an optional clause as behind the rest, ranks are great enough;
* `Core.Reads`, `Chain.Reads`: a core, and a chain as far as its own set operators go, is read back;
* `Query.reads`, `Source.reads`: every query and every source is read back.
-/

namespace TaggedSql

open Piece Rule Arena Statement Query
open TaggedSql.Expr (guardedDepth)

variable {source : String} {settings : Settings} {room n : Nat} {ps rest : List Piece} {c : Context}

/-! ### Ranks -/

/-- What may follow the part before an optional clause: the word of the clause, or the rest. -/
theorem rank_optional {α : Type} {w : Word} (o : Option α) (print : α → List Piece)
    (hword : n ≤ (Kind.word w).rank) (hrest : n ≤ (kindAt 0 rest).rank) :
    n ≤ (kindAt 0 (o.elim [] (fun x => word w :: print x) ++ rest)).rank := by
  cases o with
  | none => exact hrest
  | some x =>
    rw [Option.elim_some, List.cons_append, kindAt_zero_cons, kind_word]
    exact hword

theorem rank_sources (items : List (List Piece)) (hrest : 1 ≤ (kindAt 0 rest).rank) :
    1 ≤ (kindAt 0 (Piece.sources items ++ rest)).rank := by
  cases items with
  | nil => exact hrest
  | cons item items => exact Nat.le_refl 1

theorem rank_limits (limits : Limits) (hrest : 7 ≤ (kindAt 0 rest).rank) :
    7 ≤ (kindAt 0 (limits.pieces ++ rest)).rank := by
  cases limits with
  | none => exact hrest
  | _ => exact Nat.le_refl 7

theorem rank_ending (e : Ending) (hrest : 8 ≤ (kindAt 0 rest).rank) :
    6 ≤ (kindAt 0 (e.pieces ++ rest)).rank := by
  rw [Ending.pieces, List.append_assoc]
  have hlimits := rank_limits e.limits (Nat.le_trans (by decide) hrest)
  exact rank_optional (w := .ORDER) e.order _ (Nat.le_refl 6) (Nat.le_trans (by decide) hlimits)

/-! ### Select cores -/

/-- A core is read back before what ranks at least as a set operator does. -/
def Core.Reads (core : Core) : Prop :=
  ∀ (source : String) (settings : Settings) (room : Nat) (rest : List Piece),
    core.depth ≤ room → 5 ≤ (kindAt 0 rest).rank →
    Takes source (fun _ => True) (coreParts (contextOf settings room)) core.pieces rest
      fun ids A => ShowsAll source A ids core.data

theorem Source.piecesOfAll_eq_map (sources : List Source) :
    Source.piecesOfAll sources = sources.map Source.pieces := by
  induction sources with
  | nil => rfl
  | cons s sources ih => rw [Source.piecesOfAll, ih, List.map_cons]

theorem Source.dataOfAll_eq_map (sources : List Source) :
    Source.dataOfAll sources = sources.map Source.datum := by
  induction sources with
  | nil => rfl
  | cons s sources ih => rw [Source.dataOfAll, ih, List.map_cons]

theorem Source.depth_le_depthOfAll {s : Source} {sources : List Source} (h : s ∈ sources) :
    s.depth ≤ Source.depthOfAll sources := by
  induction sources with
  | nil => cases h
  | cons s' sources ih =>
    rw [Source.depthOfAll]
    rcases List.mem_cons.1 h with rfl | h
    · exact Nat.le_max_left _ _
    · exact Nat.le_trans (ih h) (Nat.le_max_right _ _)

/-- Sources that may be missing are read back. -/
theorem takes_fromClause (sources : List Source) (hsources : ∀ s ∈ sources, s.Reads)
    (hdepth : Source.depthOfAll sources ≤ room) (hrest : 2 ≤ (kindAt 0 rest).rank) :
    Takes source (fun _ => True) (fromClause (contextOf settings room))
      (Piece.sources (Source.piecesOfAll sources)) rest
      fun ids A => ShowsAll source A ids (Datum.sources (Source.dataOfAll sources)) := by
  rw [fromClause_eq]
  cases sources with
  | nil =>
    refine (takes_behind_none (t := .word .FROM) (Kind.ne_of_rank hrest (by decide))).imp
      fun ids A h => ?_
    rw [h.1]
    exact showsAll_nil
  | cons s sources =>
    have hrank : 1 ≤ (kindAt 0 rest).rank := Nat.le_trans (by decide) hrest
    refine Takes.behind (t := .word .FROM) ?_
    refine Leads.pushTag fun head => ?_
    rw [Source.piecesOfAll_eq_map, Source.dataOfAll_eq_map, ← List.append_nil (commas _)]
    refine Takes.seq (P := fun ids A => ShowsAll source A ids ((s :: sources).map Source.datum))
      (takes_separatedBy s sources (fun s' hs' more hmore => ?_) ?_) fun ids => ?_
    · have hle := Nat.le_trans (Source.depth_le_depthOfAll hs') hdepth
      rcases hmore with rfl | ⟨others, rfl⟩
      · exact (hsources s' hs').all hle (isFree_of_rank hrank) (Kind.startsJoin_of_rank hrank)
      · exact (hsources s' hs').all hle rfl rfl
    · exact Kind.ne_of_rank hrank (by decide)
    · refine Leads.pushList (fun A hA => showsAll_cons.2 ⟨hA.1.2, hA.2⟩) fun clause => ?_
      exact Takes.done fun A hA => hA.2.single

/-- No result column begins with a word that a row mark could be. -/
theorem Column.kindAt_ne (column : Column) (rest : List Piece) :
    kindAt 0 (column.pieces ++ rest) ≠ .word .DISTINCT ∧
      kindAt 0 (column.pieces ++ rest) ≠ .word .ALL := by
  cases column with
  | all => exact ⟨nofun, nofun⟩
  | allOf table => simp [Column.pieces]
  | value e label =>
    have hstart := e.startsExpression (Piece.aliasOf label ++ rest)
    rw [Column.pieces, List.append_assoc]
    constructor
    · intro h
      rw [h] at hstart
      cases hstart
    · intro h
      rw [h] at hstart
      cases hstart

/-- Result columns are read back. -/
theorem takes_resultColumns (columns : Several Column)
    (hdepth : deepest (columns.toList.map Column.depth) ≤ room)
    (hrest : 1 ≤ (kindAt 0 rest).rank) :
    Takes source (fun _ => True) (commaSeparated (resultColumn (contextOf settings room)))
      (commas (columns.toList.map Column.pieces)) rest
      fun ids A => ShowsAll source A ids (columns.toList.map Column.datum) := by
  refine takes_separatedBy columns.first columns.more (fun column hcolumn more hmore => ?_)
    (Kind.ne_of_rank hrest (by decide))
  have hle := le_deepest (List.mem_map_of_mem (f := Column.depth) hcolumn)
  refine takes_resultColumn column (Nat.le_trans hle hdepth) ?_
  rcases hmore with rfl | ⟨others, rfl⟩
  · exact isFree_of_rank hrest
  · rfl

/-- A select core is read back if its sources are. -/
theorem Core.reads_select (mark : RowMark) (columns : Several Column) (sources : List Source)
    (condition : Option Expr) (groups : Option (Several Expr)) (having : Option Expr)
    (hsources : ∀ s ∈ sources, s.Reads) :
    (Core.select mark columns sources condition groups having).Reads := by
  intro source settings room rest hdepth hrest
  rw [Core.depth] at hdepth
  have hrank : ∀ k, k ≤ 5 → k ≤ (kindAt 0 rest).rank := fun k hk => Nat.le_trans hk hrest
  -- What follows each clause ranks behind it.
  have hhaving := rank_optional (w := .HAVING) having Expr.pieces (Nat.le_refl 4) (hrank 4 (by decide))
  have hgroups := rank_optional (w := .GROUP) groups
    (fun keys => word .BY :: commas (keys.toList.map Expr.pieces)) (Nat.le_refl 3)
    (Nat.le_trans (by decide) hhaving)
  have hcondition := rank_optional (w := .WHERE) condition Expr.pieces (Nat.le_refl 2)
    (Nat.le_trans (by decide) hgroups)
  have hfrom := rank_sources (Source.piecesOfAll sources) (Nat.le_trans (by decide) hcondition)
  have hlight : ∀ {k : Kind}, 1 ≤ k.rank → isLight k = true := fun h =>
    isLight_of_isFree (isFree_of_rank h)
  rw [coreParts, Core.pieces]
  refine Leads.at? ?_
  rw [List.cons_append, kindAt_zero_cons, kind_word]
  show Leads source _ (selectParts _) _ _ _ _
  rw [selectParts]
  refine Leads.expect (t := .word .SELECT) ?_
  refine Leads.pushTag fun head => ?_
  have hmark : ∀ ps, kindAt 0 (commas (columns.toList.map Column.pieces) ++ ps) ≠ .word .DISTINCT ∧
      kindAt 0 (commas (columns.toList.map Column.pieces) ++ ps) ≠ .word .ALL := by
    intro ps
    rw [commas, Several.toList, List.map_cons, separated, List.append_assoc]
    exact columns.first.kindAt_ne _
  refine Takes.seq (takes_rowMark mark ?_ ?_) fun marks => ?_
  · rw [List.append_assoc]
    exact (hmark _).1
  · rw [List.append_assoc]
    exact (hmark _).2
  refine Takes.seq (takes_resultColumns columns (by omega) ?_) fun ids => ?_
  · rw [List.append_assoc, List.append_assoc, List.append_assoc]
    exact hfrom
  refine Leads.pushList (fun A hA => hA.2) fun list => ?_
  refine Takes.seq (takes_fromClause sources hsources (by omega) ?_) fun sourceIds => ?_
  · rw [List.append_assoc, List.append_assoc]
    exact hcondition
  rw [whereClause_eq]
  refine Takes.seq (takes_condition .WHERE .whereClause condition (by omega) ?_ ?_)
    fun conditionIds => ?_
  · rw [List.append_assoc]
    exact hlight (Nat.le_trans (by decide) hgroups)
  · rw [List.append_assoc]
    exact Kind.ne_of_rank hgroups (by decide)
  refine Takes.seq (takes_groupByClause groups (by omega) hhaving) fun groupIds => ?_
  rw [havingClause_eq, ← List.append_nil (Piece.condition .HAVING having)]
  refine Takes.seq (takes_condition .HAVING .having having (by omega) ?_ ?_) fun havingIds => ?_
  · exact hlight (hrank 1 (by decide))
  · exact Kind.ne_of_rank (hrank 5 (by decide)) (by decide)
  refine Takes.done fun A hA => ?_
  obtain ⟨⟨⟨⟨⟨⟨⟨⟨_, hhead⟩, hmarks⟩, _⟩, hlist⟩, hsourceIds⟩, hconditionIds⟩, hgroupIds⟩,
    hhavingIds⟩ := hA
  exact ((((ShowsAll.append (showsAll_cons.2 ⟨hhead, hmarks⟩) hlist.single).append
    hsourceIds).append hconditionIds).append hgroupIds).append hhavingIds

/-- A row of values is read back. -/
theorem takes_valueRow (row : Several Expr) (hdepth : levelsOfAll row ≤ room) :
    Takes source (fun _ => True) (valueRow (contextOf settings room)) (Piece.row row) rest
      fun id A => Shows source A id (Datum.row row) := by
  rw [valueRow]
  refine Leads.expect (t := .symbol .leftParen) ?_
  refine Takes.seq (takes_several row hdepth rfl (by simp)) fun ids => ?_
  refine Leads.expect (t := .symbol .rightParen) ?_
  exact Takes.pushList fun A hA => hA.2

theorem Core.reads_values (rows : Several (Several Expr)) : (Core.values rows).Reads := by
  intro source settings room rest hdepth hrest
  rw [coreParts, Core.pieces]
  refine Leads.at? ?_
  rw [List.cons_append, kindAt_zero_cons, kind_word]
  show Leads source _ (valuesParts _) _ _ _ _
  rw [valuesParts]
  refine Leads.expect (t := .word .VALUES) ?_
  refine Leads.pushTag fun head => ?_
  rw [← List.append_nil (commas _)]
  refine Takes.seq (P := fun ids A => ShowsAll source A ids (rows.toList.map Datum.row))
    (takes_separatedBy rows.first rows.more (fun row hrow more hmore => ?_) ?_) fun ids => ?_
  · have hle := le_deepest (List.mem_map_of_mem (f := levelsOfAll) hrow)
    exact takes_valueRow row (Nat.le_trans hle hdepth)
  · exact Kind.ne_of_rank hrest (by decide)
  · exact Takes.done fun A hA => showsAll_cons.2 ⟨hA.1.2, hA.2⟩

/-! ### Chains -/

/-- A chain is read back as far as its own set operators go. -/
def Chain.Reads (chain : Chain) : Prop :=
  ∀ (source : String) (settings : Settings) (room : Nat) (rest : List Piece),
    chain.depth ≤ room → 5 ≤ (kindAt 0 rest).rank →
    Leads source (fun _ => True) (chainParts (contextOf settings room)) chain.pieces rest
      (fun ids A => ShowsAll source A ids chain.data) (iterate (extendChain (contextOf settings room)))

theorem Core.reads_chain {core : Core} (h : core.Reads) : (Chain.core core).Reads :=
  fun source settings room rest hdepth hrest =>
    Takes.leads (h source settings room rest hdepth hrest)

/-- A core begins as a query does, and not with named queries. -/
theorem Core.kindAt_eq (core : Core) (rest : List Piece) :
    kindAt 0 (core.pieces ++ rest) = .word .SELECT ∨ kindAt 0 (core.pieces ++ rest) = .word .VALUES := by
  cases core with
  | select mark columns sources condition groups having =>
    refine .inl ?_
    rw [Core.pieces, List.cons_append, kindAt_zero_cons, kind_word]
  | values rows =>
    refine .inr ?_
    rw [Core.pieces, List.cons_append, kindAt_zero_cons, kind_word]

theorem Chain.kindAt_eq : (chain : Chain) → (rest : List Piece) →
    kindAt 0 (chain.pieces ++ rest) = .word .SELECT ∨
      kindAt 0 (chain.pieces ++ rest) = .word .VALUES
  | .core first, rest => first.kindAt_eq rest
  | .link left operator right, rest => by
    rw [Chain.pieces, List.append_assoc]
    exact left.kindAt_eq _

/-- A chain ends where no set operator follows. -/
theorem takes_extendChain_none {K : Arena → Prop} (parts : List NodeId)
    (hrest : 6 ≤ (kindAt 0 rest).rank) :
    Takes source K (extendChain c parts) [] rest fun o A => o = none ∧ K A := by
  rw [extendChain, setOperator?, bind_assoc]
  refine Leads.currentWord? ?_
  rw [List.nil_append]
  split
  next hword => exact absurd (Kind.eq_word_of_word? hword) (Kind.ne_of_rank hrest (by decide))
  next hword => exact absurd (Kind.eq_word_of_word? hword) (Kind.ne_of_rank hrest (by decide))
  next hword => exact absurd (Kind.eq_word_of_word? hword) (Kind.ne_of_rank hrest (by decide))
  next =>
    rw [pure_bind]
    exact Takes.done fun A hA => ⟨rfl, hA⟩

/-- A set operator is read back as its tag. -/
theorem takes_setOperator (operator : SetOperator) (hrest : kindAt 0 rest ≠ .word .ALL) :
    Takes source (fun _ => True) setOperator? operator.pieces rest
      fun o _ => o = some operator.tag := by
  rw [setOperator?]
  cases operator with
  | union =>
    refine Leads.currentWord? ?_
    refine Leads.advance ?_
    refine Leads.skip (t := .word .ALL) hrest ?_
    exact Takes.done fun _ _ => rfl
  | unionAll =>
    refine Leads.currentWord? ?_
    refine Leads.advance ?_
    refine Leads.eat (t := .word .ALL) ?_
    exact Takes.done fun _ _ => rfl
  | except =>
    refine Leads.currentWord? ?_
    refine Leads.advance ?_
    exact Takes.done fun _ _ => rfl
  | intersect =>
    refine Leads.currentWord? ?_
    refine Leads.advance ?_
    exact Takes.done fun _ _ => rfl

theorem SetOperator.rank_pieces (operator : SetOperator) (rest : List Piece) :
    5 ≤ (kindAt 0 (operator.pieces ++ rest)).rank := by
  cases operator <;> exact Nat.le_refl 5

theorem Chain.reads_link {left : Chain} {right : Core} (operator : SetOperator)
    (hleft : left.Reads) (hright : right.Reads) : (Chain.link left operator right).Reads := by
  intro source settings room rest hdepth hrest
  rw [Chain.depth] at hdepth
  have hall : kindAt 0 (right.pieces ++ rest) ≠ .word .ALL := by
    rcases right.kindAt_eq rest with h | h
    · rw [h]; nofun
    · rw [h]; nofun
  have hrank : 5 ≤ (kindAt 0 ((operator.pieces ++ right.pieces) ++ rest)).rank := by
    rw [List.append_assoc]
    exact operator.rank_pieces _
  rw [Chain.pieces]
  refine Leads.extend (hleft source settings room _ (by omega) hrank) (fun parts => ?_) ?_
  · rw [extendChain]
    refine Takes.seqEq (v := some operator.tag) (takes_setOperator operator hall) ?_
    refine Leads.pushList (fun A hA => hA) fun leftId => ?_
    rw [← List.append_nil right.pieces]
    refine Takes.seq (hright source settings room rest (by omega) hrest) fun ids => ?_
    refine Leads.pushList (fun A hA => hA.2) fun rightId => ?_
    refine Leads.pushTag fun head => ?_
    refine Takes.done fun A hA => ⟨_, rfl, ?_⟩
    obtain ⟨⟨⟨⟨_, hleftId⟩, _⟩, hrightId⟩, hhead⟩ := hA
    exact showsAll_cons.2 ⟨hhead, showsAll_cons.2 ⟨hleftId, hrightId.single⟩⟩
  · cases operator <;> exact List.cons_ne_nil _ _

/-- A chain with its order and limits is read back. -/
theorem Chain.Reads.takes_chain {chain : Chain} (h : chain.Reads) (ending : Ending)
    (hchain : chain.depth ≤ room) (hending : ending.depth ≤ room)
    (hrest : 8 ≤ (kindAt 0 rest).rank) :
    Takes source (fun _ => True) (Query.chain (contextOf settings room))
      (chain.pieces ++ ending.pieces) rest
      fun id A => Shows source A id (.list (chain.data ++ ending.data)) := by
  rw [Ending.depth] at hending
  have hrank := rank_ending ending hrest
  rw [chain_eq]
  refine Takes.seq (P := fun ids A => ShowsAll source A ids chain.data) ?_ fun parts => ?_
  · refine Leads.close (h source settings room _ hchain (Nat.le_trans (by decide) hrank))
      fun parts => ?_
    exact takes_extendChain_none parts hrank
  rw [Ending.pieces]
  refine Takes.seq (takes_orderByClause ending.order (by omega) ?_) fun order => ?_
  · exact rank_limits ending.limits (Nat.le_trans (by decide) hrest)
  rw [← List.append_nil ending.limits.pieces]
  refine Takes.seq (takes_limitClause ending.limits (by omega) hrest) fun limits => ?_
  refine Takes.pushList fun A hA => ?_
  rw [Ending.data, ← List.append_assoc]
  exact (hA.1.1.2.append hA.1.2).append hA.2

/-! ### Named queries -/

/-- A query with its name. -/
structure NamedQuery where
  name : Name
  columns : Option (Several Name)
  query : Query

namespace Tables

/-- The named queries one by one. -/
def toSeveral : Tables → Several NamedQuery
  | .last name columns query => ⟨⟨name, columns, query⟩, []⟩
  | .more name columns query others => ⟨⟨name, columns, query⟩, others.toSeveral.toList⟩

theorem pieces_eq (tables : Tables) : tables.pieces = commas (tables.toSeveral.toList.map fun t =>
    Piece.namedQuery t.name t.columns t.query.pieces) := by
  cases tables with
  | last name columns query => simp [Tables.pieces, toSeveral, Several.toList, commas, separated]
  | more name columns query others =>
    rw [Tables.pieces, others.pieces_eq]
    simp [toSeveral, Several.toList, commas, separated, terminal]

theorem data_eq (tables : Tables) : tables.data =
    tables.toSeveral.toList.map fun t => Datum.namedQuery t.name t.columns t.query.datum := by
  cases tables with
  | last name columns query => rfl
  | more name columns query others =>
    rw [Tables.data, others.data_eq]
    rfl

theorem depth_lt (tables : Tables) :
    ∀ t ∈ tables.toSeveral.toList, t.query.depth < tables.depth := by
  intro t ht
  cases tables with
  | last name columns query =>
    rw [List.mem_singleton.1 ht]
    exact Nat.lt_succ_self _
  | more name columns query others =>
    rw [Tables.depth]
    rcases List.mem_cons.1 ht with rfl | ht
    · exact Nat.lt_of_lt_of_le (Nat.lt_succ_self _) (Nat.le_max_left _ _)
    · exact Nat.lt_of_lt_of_le (others.depth_lt t ht) (Nat.le_max_right _ _)

end Tables

/-- A query begins as queries do. -/
theorem Query.startsQuery (q : Query) (rest : List Piece) :
    (kindAt 0 (q.pieces ++ rest)).startsQuery = true := by
  cases q with
  | plain chain ending =>
    rw [Query.pieces, List.append_assoc]
    rcases chain.kindAt_eq (ending.pieces ++ rest) with h | h
    · rw [h]; rfl
    · rw [h]; rfl
  | named recursive tables chain ending =>
    rw [Query.pieces, List.cons_append, kindAt_zero_cons, kind_word]
    rfl

/-- A query is read back where one has to begin. -/
theorem Query.Reads.required {q : Query} (h : q.Reads) (hdepth : q.depth < room)
    (hrest : 8 ≤ (kindAt 0 rest).rank) :
    Takes source (fun _ => True) (contextOf settings room).requiredQuery q.pieces rest
      fun id A => Shows source A id q.datum := by
  obtain ⟨room, rfl⟩ : ∃ k, room = k + 1 := ⟨room - 1, by omega⟩
  rw [Context.requiredQuery]
  refine Leads.atQuery ?_
  rw [q.startsQuery, if_pos rfl]
  exact h source settings room rest (by omega) hrest

/-- A named query is read back. -/
theorem Query.Reads.takes_namedQuery {q : Query} (h : q.Reads) (name : Name)
    (columns : Option (Several Name)) (hdepth : q.depth < room) :
    Takes source (fun _ => True) (Query.namedQuery (contextOf settings room))
      (Piece.namedQuery name columns q.pieces) rest
      fun id A => Shows source A id (Datum.namedQuery name columns q.datum) := by
  rw [Query.namedQuery, Piece.namedQuery]
  refine Takes.seqCons (takes_identifier name) fun nameId => ?_
  refine Takes.seq (takes_optionalColumnNames columns (by simp)) fun columnIds => ?_
  refine Leads.expect (t := .word .AS) ?_
  rw [Context.parenthesizedQuery]
  simp only [bind_assoc, pure_bind]
  refine Leads.expect (t := .symbol .leftParen) ?_
  refine Takes.seq (h.required hdepth (Nat.le_refl 8)) fun queryId => ?_
  refine Leads.expect (t := .symbol .rightParen) ?_
  refine Takes.pushList fun A hA => showsAll_cons.2 ⟨hA.1.1.2, ?_⟩
  exact hA.1.2.append hA.2.single

/-- A query without named queries is read back if its chain is. -/
theorem Query.reads_plain {chain : Chain} (ending : Ending) (h : chain.Reads) :
    (Query.plain chain ending).Reads := by
  intro source settings room rest hdepth hrest
  rw [Query.depth] at hdepth
  have hfront : (kindAt 0 (chain.pieces ++ ending.pieces ++ rest) == (Terminal.word .WITH).kind) =
      false := by
    rw [List.append_assoc]
    rcases chain.kindAt_eq (ending.pieces ++ rest) with h | h
    · rw [h]; rfl
    · rw [h]; rfl
  rw [Query.query, Query.pieces]
  refine Leads.at? ?_
  rw [hfront, if_neg Bool.false_ne_true]
  exact h.takes_chain ending (by omega) (by omega) hrest

/-- A query behind named queries is read back if its chain and they are. -/
theorem Query.reads_named {tables : Tables} {chain : Chain} (recursive : Bool) (ending : Ending)
    (htables : ∀ t ∈ tables.toSeveral.toList, t.query.Reads) (h : chain.Reads) :
    (Query.named recursive tables chain ending).Reads := by
  intro source settings room rest hdepth hrest
  rw [Query.depth] at hdepth
  rw [Query.query, Query.pieces, Query.datum]
  refine Leads.at? ?_
  rw [List.cons_append, kindAt_zero_cons, kind_word]
  show Leads source _ (withQuery _) _ _ _ _
  rw [withQuery_eq]
  refine Leads.expect (t := .word .WITH) ?_
  refine Leads.pushTag fun head => ?_
  have hcomma : kindAt 0 (chain.pieces ++ ending.pieces ++ rest) ≠ .symbol .comma := by
    rw [List.append_assoc]
    rcases chain.kindAt_eq (ending.pieces ++ rest) with h | h
    · rw [h]; nofun
    · rw [h]; nofun
  refine Takes.seq (takes_mark recursive .RECURSIVE .recursive ?_) fun mark => ?_
  · rw [Tables.pieces_eq, commas, Several.toList, List.map_cons, separated, Piece.namedQuery]
    simp
  rw [Tables.pieces_eq, Tables.data_eq]
  refine Takes.seq (P := fun ids A => ShowsAll source A ids (tables.toSeveral.toList.map fun t =>
      Datum.namedQuery t.name t.columns t.query.datum))
    (takes_separatedBy tables.toSeveral.first tables.toSeveral.more (fun t ht more _ => ?_) hcomma)
    fun ids => ?_
  · have hlt := tables.depth_lt t ht
    exact (htables t ht).takes_namedQuery t.name t.columns (by omega)
  refine Leads.pushList (fun A hA => hA.2) fun list => ?_
  rw [← List.append_nil (chain.pieces ++ ending.pieces)]
  refine Takes.seq (h.takes_chain ending (by omega) (by omega) hrest) fun queryId => ?_
  refine Takes.pushList fun A hA => ?_
  obtain ⟨⟨⟨⟨⟨_, hhead⟩, hmark⟩, _⟩, hlist⟩, hquery⟩ := hA
  exact ShowsAll.append (showsAll_cons.2 ⟨hhead, hmark⟩) (showsAll_cons.2 ⟨hlist, hquery.single⟩)

/-! ### All queries -/

mutual

/-- Every source is read back as far as its own joins go. -/
theorem Source.reads : (s : Source) → s.Reads
  | .table name => Source.reads_table name
  | .aliased s label => Source.reads_aliased label s.reads
  | .join kind left right on => Source.reads_join kind on left.reads right.reads
  | .query q => Source.reads_query q.reads q.startsQuery

theorem Source.readsAll : (sources : List Source) → ∀ s ∈ sources, s.Reads
  | [] => fun _ h => nomatch h
  | s :: sources => List.forall_mem_cons.2 ⟨s.reads, Source.readsAll sources⟩

theorem Core.reads : (core : Core) → core.Reads
  | .select rows columns sources filter groups having =>
    Core.reads_select rows columns sources filter groups having (Source.readsAll sources)
  | .values rows => Core.reads_values rows

theorem Chain.reads : (chain : Chain) → chain.Reads
  | .core first => Core.reads_chain first.reads
  | .link left operator right => Chain.reads_link operator left.reads right.reads

/-- Every query is read back. -/
theorem Query.reads : (q : Query) → q.Reads
  | .plain first ending => Query.reads_plain ending first.reads
  | .named recursive tables first ending =>
    Query.reads_named recursive ending tables.reads first.reads

theorem Tables.reads : (tables : Tables) → ∀ t ∈ tables.toSeveral.toList, t.query.Reads
  | .last _ _ q => List.forall_mem_singleton.2 q.reads
  | .more _ _ q others => List.forall_mem_cons.2 ⟨q.reads, others.reads⟩

end

end TaggedSql
