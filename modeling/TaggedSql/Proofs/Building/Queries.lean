import TaggedSql.Proofs.Building.Expressions

/-!
# What rules for queries build

If the rules one level deeper build what they are there for, so do the rules for queries and for
what queries are made of.

* `builds_joinSource`, `builds_tableSource`: sources of rows;
* `builds_coreParts`, `builds_chainParts`: select cores and rows of values, joined by set operators;
* `builds_limitClause`: limits, whose operands a source may give in either order;
* `builds_query`: queries.
-/

namespace TaggedSql

open Rule Arena Form Query

variable {c : Context} {F : Stream → Prop}

/-! ### Names and aliases -/

theorem builds_tableName : Builds tableName (Built IsTableName walk) := by
  refine .node builds_identifier fun first f hf => ?_
  obtain ⟨s⟩ := hf
  refine .ifEat rfl ?_ (.give (fun A hA => hA.2) (.plain s) (by simp))
  refine .node builds_identifier.from fun name g hg => ?_
  obtain ⟨s'⟩ := hg
  exact .pushList (fun A hA => hA.2.single.cons hA.1.2) (.qualified s s') rfl

theorem builds_alias? : Builds alias? (OrNone (Built IsName walk)) := by
  have hname : Builds (do return some (← identifier)) (OrNone (Built IsName walk)) := by
    refine .node builds_identifier fun name f hf => ?_
    exact .done fun A hA => ⟨f, hA.2, hf, by simp⟩
  refine .ifEat rfl hname ?_
  refine .current fun t => ?_
  split
  next => exact hname.from
  next => exact .done fun _ _ => rfl

/-- A node with the alias that follows it, if one does. -/
theorem builds_withAlias {P : Form → Prop} {node : NodeId} {f : Form} (hf : P f) :
    BuildsFrom F (fun A => A.Holds node f) (withAlias node) fun id w A =>
      Built (Aliased P) walk id (walk f ++ w) A := by
  refine .bind builds_alias?.from fun o w => ?_
  cases o with
  | none =>
    refine .know (p := w = []) (fun A hA => hA.2) ?_
    rintro rfl
    exact .give (fun A hA => hA.1) (.plain hf) (by simp)
  | some name =>
    refine .open fun g hg hw => ?_
    obtain ⟨s⟩ := hg
    rw [← hw]
    refine .tagged (fun A hA => hA.2.single.cons hA.1) (.named hf s) ?_
    simp (disch := decide)

theorem builds_columnNames : Builds columnNames (Built IsColumnNames walk) := by
  refine .expect rfl ?_
  refine .pushTag fun head => ?_
  refine .nodes builds_identifiers.from fun names fs hfs => ?_
  refine .expect rfl ?_
  exact .pushList (fun A hA => hA.2.cons hA.1.2) (.mk hfs) (by simp (disch := decide))

theorem builds_optionalColumnNames :
    Builds optionalColumnNames (BuiltAll (Optional IsColumnNames) walkAll) := by
  refine .at? fun b => ?_
  cases b with
  | true =>
    refine .node builds_columnNames.from fun names f hf => ?_
    exact .giveAll (fun A hA => hA.2.single) (.present hf) (by simp)
  | false => exact .giveAll (fun A _ => holdsAll_nil) .absent rfl

/-! ### Clauses -/

/-- A word that stands for a tag. -/
theorem builds_mark {w : Word} {t : Tag} {ts : List Tag} (hw : (Kind.word w).isSilent = true)
    (ht : t ∈ ts) : Builds (mark w t) (BuiltAll (Mark ts) walkAll) := by
  refine builds_behind hw ?_ .absent rfl
  refine .pushTag fun id => ?_
  exact .giveAll (fun A hA => hA.2.single) (.present ht) rfl

/-- A condition behind a word. -/
theorem builds_condition (h : c.Builds) {w : Word} {t : Tag} (hw : (Kind.word w).isSilent = true)
    (ht : t.isPlain = true) :
    Builds (condition w t c) (BuiltAll (Optional (Clause IsExpression t)) walkAll) := by
  refine builds_behind hw ?_ .absent rfl
  refine .node (h.expression 0) fun id f hf => ?_
  refine .taggedThen (fun A hA => hA.2.single) fun clause => ?_
  exact .giveAll (fun A hA => hA.2.single) (.present (.mk hf)) (by simp [walk_plain ht])

/-- A clause of several items, behind its tag. -/
theorem builds_listClause {P : Form → Prop} {t : Tag} {item : Rule NodeId} (ht : t.isPlain = true)
    (hitem : Builds item (Built P walk)) :
    Builds (do
        let head ← pushTag t
        let items ← commaSeparated item
        return [← pushList (head :: items)])
      (BuiltAll (Optional (ListClause P t)) walkAll) := by
  refine .pushTag fun head => ?_
  refine .nodes (builds_commaSeparated hitem).from fun items fs hfs => ?_
  refine .pushListThen (fun A hA => hA.2.cons hA.1.2) fun clause => ?_
  exact .giveAll (fun A hA => hA.2.single) (.present (.mk hfs)) (by simp [walk_plain ht])

theorem builds_groupByClause (h : c.Builds) :
    Builds (groupByClause c) (BuiltAll (Optional (ListClause IsExpression .groupBy)) walkAll) := by
  rw [groupByClause_eq]
  refine builds_behind rfl (.expect rfl ?_) .absent rfl
  exact builds_listClause rfl (h.expression 0)

theorem builds_orderingTerm (h : c.Builds) : Builds (orderingTerm c) (Built IsTerm walk) := by
  refine .node (h.expression 0) fun key f hf => ?_
  refine .currentWord? fun w => ?_
  have hplain : BuildsFrom (fun s => True ∧ s.current.kind.word? = w)
      (fun A => True ∧ A.Holds key f) (pure key) fun id w A =>
        Built IsTerm walk id (walk f ++ w) A :=
    .give (fun A hA => hA.2) (.plain hf) (by simp)
  cases w with
  | none => exact hplain
  | some w =>
    cases w with
    | ASC =>
      refine .passWord rfl ?_
      exact .tagged (fun A hA => hA.2.single) (.ascending hf) (by simp (disch := decide))
    | DESC =>
      refine .passWord rfl ?_
      exact .tagged (fun A hA => hA.2.single) (.descending hf) (by simp (disch := decide))
    | _ => exact hplain

theorem builds_orderByClause (h : c.Builds) :
    Builds (orderByClause c) (BuiltAll (Optional (ListClause IsTerm .orderBy)) walkAll) := by
  rw [orderByClause_eq]
  refine builds_behind rfl (.expect rfl ?_) .absent rfl
  exact builds_listClause rfl (builds_orderingTerm h)

/-- An expression that bounds the rows of a query. -/
theorem exists_of_expression (h : c.Builds) {s s' : ParseState} {id : NodeId}
    (hrun : c.expression s = .ok id s') (hsound : s.arena.Sound) :
    ∃ e, IsExpression e ∧ s'.arena.Holds id e ∧ Spells (walk e) s.stream.rest s'.stream.rest ∧
      s.arena.Grows s'.arena := by
  obtain ⟨_, hspells, hgrows, e, hholds, he, rfl⟩ :=
    h.expression 0 s id s' hrun trivial hsound trivial
  exact ⟨e, he, hholds, hspells, hgrows⟩

/-- The nodes of a limit and of an offset take no tokens. -/
theorem builds_limitNodes {count skipped : NodeId} {e e' : Form} :
    BuildsFrom (fun _ => True) (fun A => A.Holds count e ∧ A.Holds skipped e')
      (do
        let limit ← tagged .limit [count]
        return [limit, ← tagged .offset [skipped]])
      fun ids w A => w = [] ∧
        A.HoldsAll ids [.list [.tag .limit, e], .list [.tag .offset, e']] := by
  refine .taggedThen (fun A hA => hA.1.single) fun limit => ?_
  refine .taggedThen (fun A hA => hA.1.2.single) fun offset => ?_
  exact .done fun A hA => ⟨rfl, hA.2.single.cons hA.1.2⟩

/-- The limits whose first expression is given, and how they are spelled behind the word `LIMIT`. -/
theorem spells_limitRest (h : c.Builds) {s s' : ParseState} {first : NodeId} {ids : List NodeId}
    {e : Form} {ts : List Token} {t : Token} (hrun : limitRest c first s = .ok ids s')
    (hsound : s.arena.Sound) (hfirst : s.arena.Holds first e) (he : IsExpression e)
    (ht : t.kind = .word .LIMIT) (hts : Spells (walk e) ts s.stream.rest) :
    ∃ w, Spells w (t :: ts) s'.stream.rest ∧ s.arena.Grows s'.arena ∧
      BuiltAll IsLimits walkAll ids w s'.arena := by
  obtain ⟨found, s₁, heat, hrest⟩ := bind_eq_ok hrun
  rcases eat_eq_ok heat with ⟨rfl, hcomma, rfl⟩ | ⟨rfl, rfl⟩
  · obtain ⟨count, s₂, hcount, hnodes⟩ := bind_eq_ok hrest
    obtain ⟨e', he', hholds, hspells, hgrows⟩ := exists_of_expression h hcount hsound
    obtain ⟨_, hnone, hgrows', rfl, hids⟩ := builds_limitNodes _ _ _ hnodes trivial
      (hgrows.sound hsound) ⟨hholds, hfirst.mono hsound hgrows⟩
    rw [Stream.rest_of_terminal hcomma] at hts
    exact ⟨_, .swapped ht hts hcomma hspells hnone, hgrows.trans hgrows', _, hids,
      .offset he' he, rfl⟩
  obtain ⟨found', s₂, heat', hlast⟩ := bind_eq_ok hrest
  rcases eat_eq_ok heat' with ⟨rfl, hoffset, rfl⟩ | ⟨rfl, rfl⟩
  · obtain ⟨skipped, s₃, hskipped, hnodes⟩ := bind_eq_ok hlast
    obtain ⟨e', he', hholds, hspells, hgrows⟩ := exists_of_expression h hskipped hsound
    obtain ⟨_, hnone, hgrows', rfl, hids⟩ := builds_limitNodes _ _ _ hnodes trivial
      (hgrows.sound hsound) ⟨hfirst.mono hsound hgrows, hholds⟩
    rw [Stream.rest_of_terminal hoffset] at hts
    exact ⟨_, .limit ht hts (.offset hoffset hspells hnone), hgrows.trans hgrows', _, hids,
      .offset he he', rfl⟩
  · have hone : BuildsFrom (fun _ => True) (fun A => A.Holds first e)
        (do return [← tagged .limit [first]]) fun ids w A => w = [] ∧
          A.HoldsAll ids [.list [.tag .limit, e]] := by
      refine .taggedThen (fun A hA => hA.single) fun limit => ?_
      exact .done fun A hA => ⟨rfl, hA.2.single⟩
    obtain ⟨_, hnone, hgrows, rfl, hids⟩ := hone _ _ _ hlast trivial hsound hfirst
    exact ⟨_, .limit ht hts hnone, hgrows, _, hids, .limit he, rfl⟩

/-- The operands of limits stand in the order of the source: with a comma, the offset first. -/
theorem builds_limitClause (h : c.Builds) :
    Builds (limitClause c) (BuiltAll IsLimits walkAll) := by
  intro s ids s' hrun _ hsound _
  rw [limitClause_eq] at hrun
  obtain ⟨found, s₁, heat, hrest⟩ := bind_eq_ok hrun
  rcases eat_eq_ok heat with ⟨rfl, hlimit, rfl⟩ | ⟨rfl, rfl⟩
  · obtain ⟨first, s₂, hfirst, hrest⟩ := bind_eq_ok hrest
    obtain ⟨e, he, hholds, hspells, hgrows⟩ := exists_of_expression h hfirst hsound
    obtain ⟨w, hw, hgrows', hids⟩ :=
      spells_limitRest h hrest (hgrows.sound hsound) hholds he hlimit hspells
    rw [Stream.rest_of_terminal hlimit]
    exact ⟨w, hw, hgrows.trans hgrows', hids⟩
  · cases hrest
    exact ⟨[], .done _, Grows.refl _, [], holdsAll_nil, .absent, rfl⟩

/-! ### Sources -/

/-- No operand is taken for a tag, which is one of several. -/
def TagOf (ts : List Tag) (o : Option Tag) (w : List Operand) (_ : Arena) : Prop :=
  w = [] ∧ ∀ t ∈ o, t ∈ ts

instance stable_tagOf (ts : List Tag) (o : Option Tag) (w : List Operand) :
    Stable (TagOf ts o w) where
  mono _ _ h := h

theorem builds_someTag {ts : List Tag} {t : Tag} (ht : t ∈ ts) :
    Builds (pure (some t)) (TagOf ts) :=
  .done fun _ _ => ⟨rfl, fun _ ht' => Option.mem_some.1 ht' ▸ ht⟩

theorem builds_noTag {ts : List Tag} : Builds (pure none) (TagOf ts) :=
  .done fun _ _ => ⟨rfl, fun _ h => nomatch h⟩

theorem builds_joinOperator? : Builds joinOperator? (TagOf [.innerJoin, .leftJoin]) := by
  refine .currentWord? fun v => ?_
  cases v with
  | none => exact builds_noTag.from
  | some v =>
    cases v with
    | JOIN => exact .expect rfl (builds_someTag (by decide))
    | INNER | CROSS => exact .passWord rfl (.expect rfl (builds_someTag (by decide)))
    | LEFT =>
      have hjoin : Builds (do
          expect (.word .JOIN)
          return some Tag.leftJoin) (TagOf [.innerJoin, .leftJoin]) :=
        .expect rfl (builds_someTag (by decide))
      exact .passWord rfl (.eat rfl hjoin hjoin.from)
    | _ => exact builds_noTag.from

theorem builds_tablePrimary (h : c.Builds) : Builds (tablePrimary c) (Built IsSource walk) := by
  refine .ifEat rfl ?_ ?_
  · refine .node h.tableSource fun inner f hf => ?_
    refine .expect rfl ?_
    exact .give (fun A hA => hA.2) hf (by simp)
  · refine builds_tableName.imp ?_
    rintro id w A ⟨f, hf, hP, he⟩
    exact ⟨f, hf, .table hP, he⟩

theorem builds_tableReference (h : c.Builds) :
    Builds (tableReference c) (Built IsSource walk) := by
  rw [tableReference_eq]
  refine .node (builds_tablePrimary h) fun table f hf => ?_
  refine ((builds_withAlias hf).weaken (fun _ hs => hs) fun A hA => hA.2).imp ?_
  rintro id w A ⟨g, hg, hP, he⟩
  refine ⟨g, hg, ?_, he⟩
  cases hP with
  | plain h => exact h
  | named h s => exact .named h s

theorem builds_extendJoin (h : c.Builds) (left : NodeId) (w : List Operand) :
    BuildsFrom (fun _ => True) (Built IsSource walk left w) (extendJoin c left)
      (OrNone fun id w' A => Built IsSource walk id (w ++ w') A) := by
  refine .openOnly fun l hl hw => ?_
  rw [← hw]
  refine .bind builds_joinOperator?.from fun o w => .know (fun A hA => hA.2) ?_
  rintro ⟨rfl, ho⟩
  cases o with
  | none => exact .done fun _ _ => rfl
  | some kind =>
    refine .node (builds_tableReference h).from fun right r hr => ?_
    refine .pushTag fun head => ?_
    refine .pushTag fun mark => ?_
    rw [joinCondition_eq]
    refine .nodes (builds_condition h rfl rfl).from fun condition fs hfs => ?_
    refine .pushListThen (l := [.tag .join, .tag kind, l, r] ++ fs) ?_ fun join => ?_
    · rintro A ⟨⟨⟨⟨⟨hleft, _⟩, hright⟩, hhead⟩, hmark⟩, hcondition⟩
      exact (((hright.single.cons hleft).cons hmark).cons hhead).append hcondition
    · refine .done fun A hA => ⟨_, hA.2, .join (ho kind rfl) hl hr hfs, ?_⟩
      simp (disch := decide)

theorem builds_joinSource (h : c.Builds) : Builds (joinSource c) (Built IsSource walk) := by
  refine .bind (builds_tableReference h) fun first w => ?_
  exact (BuildsFrom.iterate (builds_extendJoin h) first w).weaken (fun _ hs => hs) fun A hA => hA.2

/-- Sources in parentheses are built if the rules one level deeper build what they are there for. -/
theorem builds_tableSource (h : c.Builds) : Builds (tableSource c) (Built IsSource walk) := by
  refine .atQuery fun b => ?_
  cases b with
  | true =>
    refine h.query.imp ?_
    rintro id w A ⟨f, hf, hP, he⟩
    exact ⟨f, hf, .query hP, he⟩
  | false => exact builds_joinSource h

/-! ### Select cores -/

theorem builds_resultColumn (h : c.Builds) : Builds (resultColumn c) (Built IsColumn walk) := by
  refine .ifEat rfl (.giveTag .all rfl) ?_
  refine .current fun t => ?_
  refine .peek fun t' => ?_
  refine .peek fun t'' => ?_
  split
  next hif =>
    simp only [Bool.and_eq_true, beq_iff_eq] at hif
    obtain ⟨⟨ht, hdot⟩, hstar⟩ := hif
    refine .identifier (G := fun s => s.current.kind = .symbol .dot ∧
      (s.peek 1).kind = .symbol .star) ht (fun s hs => hs.1.1.2) (fun s hs => ?_) fun table => ?_
    · rw [s.current_advance, s.peek_advance, hs.1.2, hs.2]
      exact ⟨hdot, hstar⟩
    refine .advance (G := fun s => s.current.kind = .symbol .star) (w := [])
      (fun s hs => s.spells_silent (by rw [hs.1]; rfl)) (fun s hs => s.current_advance ▸ hs.2) ?_
    refine .pass (fun s hs => by rw [hs]; rfl) ?_
    refine .pushTag fun head => ?_
    exact .pushList (fun A hA => hA.1.2.single.cons hA.2) (.allOf t.span) rfl
  next =>
    refine .node (h.expression 0).from fun column f hf => ?_
    refine ((builds_withAlias hf).weaken (fun _ _ => trivial) fun A hA => hA.2).imp ?_
    rintro id w A ⟨g, hg, hP, he⟩
    exact ⟨g, hg, .expression hP, he⟩

theorem builds_rowMark : Builds rowMark (BuiltAll (Mark [.distinct, .allRows]) walkAll) := by
  refine .ifEat rfl ?_ (builds_mark (w := .ALL) rfl (by decide))
  refine .pushTag fun id => ?_
  exact .giveAll (fun A hA => hA.2.single) (.present List.mem_cons_self) rfl

theorem builds_fromClause (h : c.Builds) :
    Builds (fromClause c) (BuiltAll (Optional (ListClause IsSource .fromClause)) walkAll) := by
  rw [fromClause_eq]
  exact builds_behind rfl (builds_listClause rfl (builds_joinSource h)) .absent rfl

theorem builds_valueRow (h : c.Builds) : Builds (valueRow c) (Built IsRow walk) := by
  refine .expect rfl ?_
  refine .nodes h.expressions.from fun row fs hfs => ?_
  refine .expect rfl ?_
  refine .pushList (fun A hA => hA.2) (.mk hfs) ?_
  rw [walk_expressions (several_iff.1 hfs).2, List.append_nil]

theorem builds_valuesParts (h : c.Builds) : Builds (valuesParts c) (BuiltAll IsCore walkAll) := by
  refine .expect rfl ?_
  refine .pushTag fun head => ?_
  refine .nodes (builds_commaSeparated (builds_valueRow h)).from fun rows fs hfs => ?_
  exact .giveAll (fun A hA => hA.2.cons hA.1.2) (.values hfs) (by simp)

theorem builds_selectParts (h : c.Builds) : Builds (selectParts c) (BuiltAll IsCore walkAll) := by
  refine .expect rfl ?_
  refine .pushTag fun head => ?_
  refine .nodes builds_rowMark.from fun mark ms hms => ?_
  refine .nodes (builds_commaSeparated (builds_resultColumn h)).from fun items cs hcs => ?_
  refine .pushListThen (fun A hA => hA.2) fun columns => ?_
  refine .nodes (builds_fromClause h).from fun sources fs hfs => ?_
  rw [whereClause_eq]
  refine .nodes (builds_condition h rfl rfl).from fun condition ws hws => ?_
  refine .nodes (builds_groupByClause h).from fun groups gs hgs => ?_
  rw [havingClause_eq]
  refine .nodes (builds_condition h rfl rfl).from fun having hs hhs => ?_
  refine .giveAll (l := .tag .select :: ms ++ [.list cs] ++ fs ++ ws ++ gs ++ hs) ?_
    (.select hms hcs hfs hws hgs hhs) ?_
  · rintro A ⟨⟨⟨⟨⟨⟨⟨⟨_, hhead⟩, hmark⟩, _⟩, hcolumns⟩, hsources⟩, hcondition⟩, hgroups⟩, hhaving⟩
    exact (((((hmark.cons hhead).append hcolumns.single).append hsources).append
      hcondition).append hgroups).append hhaving
  · have hwalk := walk_items (fun _ => isPlain_of_isColumn) (several_iff.1 hcs).2
    simp [hwalk]

theorem builds_coreParts (h : c.Builds) : Builds (coreParts c) (BuiltAll IsCore walkAll) := by
  refine .at? fun b => ?_
  cases b with
  | true => exact (builds_valuesParts h).from
  | false => exact (builds_selectParts h).from

/-! ### Chains of cores -/

theorem builds_setOperator? : Builds setOperator? (TagOf setTags) := by
  refine .currentWord? fun v => ?_
  cases v with
  | none => exact builds_noTag.from
  | some v =>
    cases v with
    | UNION =>
      exact .passWord rfl (.ifEat rfl (builds_someTag (by decide)) (builds_someTag (by decide)))
    | EXCEPT | INTERSECT => exact .passWord rfl (builds_someTag (by decide))
    | _ => exact builds_noTag.from

theorem builds_extendChain (h : c.Builds) (parts : List NodeId) (w : List Operand) :
    BuildsFrom (fun _ => True) (BuiltAll IsChain walkAll parts w) (extendChain c parts)
      (OrNone fun ids w' A => BuiltAll IsChain walkAll ids (w ++ w') A) := by
  refine .openAllOnly fun ls hls hw => ?_
  rw [← hw]
  refine .bind builds_setOperator?.from fun o w => .know (fun A hA => hA.2) ?_
  rintro ⟨rfl, ho⟩
  cases o with
  | none => exact .done fun _ _ => rfl
  | some operator =>
    refine .pushListThen (fun A hA => hA.1) fun left => ?_
    refine .nodes (builds_coreParts h).from fun core rs hrs => ?_
    refine .pushListThen (fun A hA => hA.2) fun right => ?_
    refine .pushTag fun head => ?_
    refine .done fun A hA => ?_
    obtain ⟨⟨⟨⟨_, hleft⟩, _⟩, hright⟩, hhead⟩ := hA
    refine ⟨_, (hright.single.cons hleft).cons hhead, .compound (ho operator rfl) hls hrs, ?_⟩
    simp [walk_chain hls, walk_chain (.core hrs)]

theorem builds_chainParts (h : c.Builds) : Builds (chainParts c) (BuiltAll IsChain walkAll) := by
  refine .bind (builds_coreParts h) fun first w => ?_
  refine (BuildsFrom.iterate (builds_extendChain h) first w).weaken (fun _ hs => hs) ?_
  rintro A ⟨_, fs, hfs, hP, he⟩
  exact ⟨fs, hfs, .core hP, he⟩

theorem builds_chain (h : c.Builds) : Builds (chain c) (Built IsQuery walk) := by
  rw [chain_eq]
  refine .nodes (builds_chainParts h) fun parts fs hfs => ?_
  refine .nodes (builds_orderByClause h).from fun order os hos => ?_
  refine .nodes (builds_limitClause h).from fun limits ls hls => ?_
  refine .pushList (fun A hA => (hA.1.1.2.append hA.1.2).append hA.2) (.chain hfs hos hls) ?_
  rw [List.append_assoc, walk_chain_append hfs]
  simp

/-! ### Named queries -/

theorem builds_namedQuery (h : c.Builds) : Builds (namedQuery c) (Built IsNamedQuery walk) := by
  refine .node builds_identifier fun name f hf => ?_
  obtain ⟨s⟩ := hf
  refine .nodes builds_optionalColumnNames.from fun columns fs hfs => ?_
  refine .expect rfl ?_
  refine .node h.parenthesizedQuery.from fun query q hq => ?_
  refine .pushList (l := .name s :: fs ++ [q]) ?_ (.mk hfs hq) ?_
  · rintro A ⟨⟨⟨_, hname⟩, hcolumns⟩, hquery⟩
    exact (hcolumns.cons hname).append hquery.single
  · show walkAll (.name s :: fs ++ [q]) = _
    simp

theorem builds_withQuery (h : c.Builds) : Builds (withQuery c) (Built IsQuery walk) := by
  rw [withQuery_eq]
  refine .expect rfl ?_
  refine .pushTag fun head => ?_
  refine .nodes (builds_mark rfl (List.mem_singleton_self _)).from fun mark ms hms => ?_
  refine .nodes (builds_commaSeparated (builds_namedQuery h)).from fun items fs hfs => ?_
  refine .pushListThen (fun A hA => hA.2) fun tables => ?_
  refine .node (builds_chain h).from fun query q hq => ?_
  refine .pushList (l := .tag .withClause :: ms ++ [.list fs, q]) ?_ (.named hms hfs hq) ?_
  · rintro A ⟨⟨⟨⟨⟨_, hhead⟩, hmark⟩, _⟩, htables⟩, hquery⟩
    exact (hmark.cons hhead).append (hquery.single.cons htables)
  · have hwalk := walk_items (fun t ht => by cases ht) (several_iff.1 hfs).2
    simp (disch := decide) [hwalk]

/-- Queries are built if the rules one level deeper build what they are there for. -/
theorem builds_query (h : c.Builds) : Builds (query c) (Built IsQuery walk) := by
  refine .at? fun b => ?_
  cases b with
  | true => exact (builds_withQuery h).from
  | false => exact (builds_chain h).from

end TaggedSql
