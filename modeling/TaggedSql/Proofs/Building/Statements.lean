import TaggedSql.Proofs.Building.Queries

/-!
# What rules for statements build

A statement that is read is a statement of the grammar of forms, and its operands stand for the
tokens that were taken.

* `builds_columnDefinition`, `builds_createTable`: tables, where a name behind that of a column is its
  type;
* `builds_context`: with room for any number of levels, rules build what they are there for;
* `builds_statement`: whole statements.
-/

namespace TaggedSql

open Rule Arena Form Query Statement

variable {c : Context} {F : Stream → Prop}

/-! ### Changing rows -/

theorem builds_insert (h : c.Builds) : Builds (insert c) (Built IsStatement walk) := by
  refine .expect rfl ?_
  refine .expect rfl ?_
  refine .pushTag fun head => ?_
  refine .node builds_tableName.from fun table f hf => ?_
  refine .nodes builds_optionalColumnNames.from fun columns fs hfs => ?_
  refine .node h.requiredQuery.from fun rows q hq => ?_
  refine .pushList (l := [.tag .insert, f] ++ fs ++ [q]) ?_ (.insert hf hfs hq) ?_
  · rintro A ⟨⟨⟨⟨_, hhead⟩, htable⟩, hcolumns⟩, hrows⟩
    exact ((htable.single.cons hhead).append hcolumns).append hrows.single
  · simp (disch := decide)

theorem builds_assignment (h : c.Builds) : Builds (assignment c) (Built IsAssignment walk) := by
  refine .node builds_identifier fun column f hf => ?_
  obtain ⟨s⟩ := hf
  refine .expect rfl ?_
  refine .node (h.expression 0).from fun value e he => ?_
  exact .tagged (fun A hA => hA.2.single.cons hA.1.2) (.mk s he) (by simp (disch := decide))

theorem builds_aliasedTable :
    Builds (tableName >>= withAlias) (Built (Aliased IsTableName) walk) := by
  refine .node builds_tableName fun name f hf => ?_
  exact (builds_withAlias hf).weaken (fun _ hs => hs) fun A hA => hA.2

theorem builds_update (h : c.Builds) : Builds (update c) (Built IsStatement walk) := by
  refine .expect rfl ?_
  refine .pushTag fun head => ?_
  rw [← bind_assoc tableName]
  refine .node builds_aliasedTable.from fun table f hf => ?_
  refine .expect rfl ?_
  refine .nodes (builds_commaSeparated (builds_assignment h)).from fun items fs hfs => ?_
  refine .pushListThen (fun A hA => hA.2) fun assignments => ?_
  refine .nodes (builds_condition h rfl rfl).from fun condition ws hws => ?_
  refine .pushList (l := [.tag .update, f, .list fs] ++ ws) ?_ (.update hf hfs hws) ?_
  · rintro A ⟨⟨⟨⟨⟨_, hhead⟩, htable⟩, _⟩, hassignments⟩, hcondition⟩
    exact ((hassignments.single.cons htable).cons hhead).append hcondition
  · have hwalk := walk_items (fun t ht => by cases ht) (several_iff.1 hfs).2
    simp (disch := decide) [hwalk]

theorem builds_delete (h : c.Builds) : Builds (delete c) (Built IsStatement walk) := by
  refine .expect rfl ?_
  refine .expect rfl ?_
  refine .pushTag fun head => ?_
  rw [← bind_assoc tableName]
  refine .node builds_aliasedTable.from fun table f hf => ?_
  refine .nodes (builds_condition h rfl rfl).from fun condition ws hws => ?_
  refine .pushList (l := [.tag .delete, f] ++ ws) ?_ (.delete hf hws) ?_
  · rintro A ⟨⟨⟨_, hhead⟩, htable⟩, hcondition⟩
    exact (htable.single.cons hhead).append hcondition
  · simp (disch := decide)

/-! ### Defining tables -/

theorem builds_columnConstraint? (h : c.Builds) :
    Builds (columnConstraint? c) (OrNone (Built IsColumnConstraint walk)) := by
  have htag : ∀ {t : Tag}, IsColumnConstraint (.tag t) →
      Builds (do return some (← pushTag t)) (OrNone (Built IsColumnConstraint walk)) := by
    intro t ht
    exact .pushTag fun id => .done fun A hA => ⟨_, hA.2, ht, rfl⟩
  refine .currentWord? fun v => ?_
  cases v with
  | none => exact .done fun _ _ => rfl
  | some v =>
    cases v with
    | PRIMARY => exact .passWord rfl (.expect rfl (htag .primaryKey))
    | UNIQUE => exact .passWord rfl (htag .unique)
    | NULL => exact .passWord rfl (htag .null)
    | NOT =>
      refine .passWord rfl ?_
      refine .expect rfl ?_
      refine .pushTag fun null => ?_
      refine .taggedThen (fun A hA => hA.2.single) fun id => ?_
      exact .done fun A hA => ⟨_, hA.2, .notNull, rfl⟩
    | DEFAULT =>
      refine .passWord rfl ?_
      refine .node (h.expression 0).from fun value e he => ?_
      refine .taggedThen (fun A hA => hA.2.single) fun id => ?_
      exact .done fun A hA => ⟨_, hA.2, .defaultValue (.mk he), by simp (disch := decide)⟩
    | _ => exact .done fun _ _ => rfl

theorem builds_columnType :
    Builds columnType (BuiltAll (Optional IsType) (List.flatMap walkType)) := by
  refine .atPlainIdentifier fun b => ?_
  cases b with
  | true =>
    refine .node builds_typeName.from fun type f hf => ?_
    exact .giveAll (fun A hA => hA.2.single) (.present hf) (by simp)
  | false => exact .giveAll (fun A _ => holdsAll_nil) .absent rfl

theorem builds_extendColumn (h : c.Builds) (parts : List NodeId) (w : List Operand) :
    BuildsFrom (fun _ => True) (BuiltAll IsColumnParts walkColumn parts w) (extendColumn c parts)
      (OrNone fun ids w' A => BuiltAll IsColumnParts walkColumn ids (w ++ w') A) := by
  refine .bind (builds_columnConstraint? h).from fun o w' => ?_
  cases o with
  | none =>
    refine .know (p := w' = []) (fun A hA => hA.2) ?_
    rintro rfl
    exact .done fun _ _ => rfl
  | some constraint =>
    refine .done ?_
    rintro A ⟨⟨_, hfs, ⟨htype, hconstraints⟩, rfl⟩, g, hg, hP, rfl⟩
    have hall := List.forall_mem_append.2 ⟨hconstraints, List.forall_mem_singleton.2 hP⟩
    refine ⟨_, hfs.append hg.single, ?_, ?_⟩
    · rw [List.append_assoc]
      exact .mk htype hall
    · rw [List.append_assoc, walkColumn_eq htype hconstraints, walkColumn_eq htype hall]
      simp

theorem builds_columnDefinition (h : c.Builds) :
    Builds (columnDefinition c) (Built IsElement fun f => walkElements [f]) := by
  rw [columnDefinition_eq]
  refine .node builds_identifier fun name f hf => ?_
  obtain ⟨s⟩ := hf
  refine .nodes builds_columnType.from fun type fs hfs => ?_
  -- The name and the type are a column without constraints.
  have hstart : ∀ A : Arena, (True ∧ A.Holds name (.name s)) ∧ A.HoldsAll type fs →
      BuiltAll IsColumnParts walkColumn (name :: type) (.name s :: fs.flatMap walkType) A := by
    rintro A ⟨⟨_, hname⟩, htype⟩
    have hparts := IsColumnParts.mk (s := s) hfs (List.forall_mem_nil _)
    have hwalk := walkColumn_eq (s := s) hfs (List.forall_mem_nil _)
    rw [List.append_nil] at hparts hwalk
    exact ⟨_, htype.cons hname, hparts, by simpa using hwalk⟩
  refine .bind ((BuildsFrom.iterate (builds_extendColumn h) (name :: type) _).weaken
    (fun _ hs => hs) hstart) fun parts w => ?_
  refine .openAll fun gs hgs hw => ?_
  refine .pushList (fun A hA => hA.2) (.column hgs) ?_
  show walkColumn gs = _
  rw [hw]
  simp

theorem builds_constraintTag :
    Builds constraintTag fun t w _ => w = [] ∧ t ∈ [Tag.primaryKey, .unique] := by
  refine .ifEat rfl ?_ ?_
  all_goals exact .expect rfl (.done fun _ _ => ⟨rfl, by decide⟩)

theorem builds_tableConstraint :
    Builds tableConstraint (Built IsElement fun f => walkElements [f]) := by
  rw [tableConstraint_eq]
  refine .bind builds_constraintTag fun t w => .know (fun A hA => hA.2) ?_
  rintro ⟨rfl, ht⟩
  refine .pushTag fun head => ?_
  refine .expect rfl ?_
  refine .nodes builds_identifiers.from fun columns fs hfs => ?_
  refine .expect rfl ?_
  refine .pushList (fun A hA => hA.2.cons hA.1.2) (.constraint ht (.mk hfs)) ?_
  have hplain : ∀ t ∈ [Tag.primaryKey, .unique], t.isPlain = true := by decide
  rw [walkElements_cons_of_ne (by rintro _ _ _ ⟨⟩), walk_plain (hplain t ht)]
  rfl

theorem builds_tableElement (h : c.Builds) :
    Builds (tableElement c) (Built IsElement fun f => walkElements [f]) := by
  refine .currentWord? fun v => ?_
  cases v with
  | none => exact (builds_columnDefinition h).from
  | some v =>
    cases v with
    | PRIMARY | UNIQUE => exact builds_tableConstraint.from
    | _ => exact (builds_columnDefinition h).from

theorem builds_createTable (h : c.Builds) : Builds (createTable c) (Built IsStatement walk) := by
  refine .expect rfl ?_
  refine .pushTag fun head => ?_
  refine .node builds_tableName.from fun name f hf => ?_
  refine .expect rfl ?_
  refine .nodes (builds_separatedBy rfl (builds_tableElement h)).from fun elements fs hfs => ?_
  refine .expect rfl ?_
  refine .pushListThen (fun A hA => hA.2) fun list => ?_
  refine .pushList (fun A hA => (hA.2.single.cons hA.1.1.2).cons hA.1.1.1.2)
    (.createTable hf hfs) ?_
  show walk f ++ walkElements fs = _
  rw [walkElements_eq_flatMap, List.append_nil]

/-! ### Defining indexes and views, and dropping -/

theorem builds_createIndex (h : c.Builds) : Builds (createIndex c) (Built IsStatement walk) := by
  rw [createIndex_eq]
  refine .pushTag fun head => ?_
  refine .nodes (builds_mark rfl (List.mem_singleton_self _)).from fun mark ms hms => ?_
  refine .expect rfl ?_
  refine .node builds_tableName.from fun name f hf => ?_
  refine .expect rfl ?_
  refine .node builds_tableName.from fun table g hg => ?_
  refine .expect rfl ?_
  refine .nodes (builds_commaSeparated (builds_orderingTerm h)).from fun terms fs hfs => ?_
  refine .expect rfl ?_
  refine .pushListThen (fun A hA => hA.2) fun list => ?_
  refine .pushList (l := .tag .createIndex :: ms ++ [f, g, .list fs]) ?_
    (.createIndex hms hf hg hfs) ?_
  · rintro A ⟨⟨⟨⟨⟨⟨_, hhead⟩, hmark⟩, hname⟩, htable⟩, _⟩, hlist⟩
    exact (hmark.cons hhead).append ((hlist.single.cons htable).cons hname)
  · have hwalk := walk_items (fun _ => isPlain_of_isTerm) (several_iff.1 hfs).2
    simp (disch := decide) [hwalk]

theorem builds_createView (h : c.Builds) : Builds (createView c) (Built IsStatement walk) := by
  refine .expect rfl ?_
  refine .pushTag fun head => ?_
  refine .node builds_tableName.from fun name f hf => ?_
  refine .nodes builds_optionalColumnNames.from fun columns fs hfs => ?_
  refine .expect rfl ?_
  refine .node h.requiredQuery.from fun query q hq => ?_
  refine .pushList (l := [.tag .createView, f] ++ fs ++ [q]) ?_ (.createView hf hfs hq) ?_
  · rintro A ⟨⟨⟨⟨_, hhead⟩, hname⟩, hcolumns⟩, hquery⟩
    exact ((hname.single.cons hhead).append hcolumns).append hquery.single
  · simp (disch := decide)

theorem builds_create (h : c.Builds) : Builds (create c) (Built IsStatement walk) := by
  refine .expect rfl ?_
  refine .currentWord? fun v => ?_
  cases v with
  | none => exact .unexpected
  | some v =>
    cases v with
    | TABLE => exact (builds_createTable h).from
    | UNIQUE | INDEX => exact (builds_createIndex h).from
    | VIEW => exact (builds_createView h).from
    | _ => exact .unexpected

theorem builds_existsMark : Builds existsMark (BuiltAll (Mark [.ifExists]) walkAll) := by
  refine builds_behind rfl ?_ .absent rfl
  refine .expect rfl ?_
  refine .pushTag fun id => ?_
  exact .giveAll (fun A hA => hA.2.single) (.present List.mem_cons_self) rfl

/-- The words that name what is dropped stand for no operand. -/
theorem dropTag?_eq_some {v : Word} {t : Tag} (h : dropTag? v = some t) :
    t ∈ [Tag.dropTable, .dropIndex, .dropView] ∧ (Kind.word v).isSilent = true := by
  unfold dropTag? at h
  split at h
  all_goals cases h <;> exact ⟨by decide, rfl⟩

theorem builds_drop : Builds drop (Built IsStatement walk) := by
  rw [drop_eq]
  refine .expect rfl ?_
  refine .currentWord? fun v => ?_
  cases hv : v.bind dropTag? with
  | none => exact .unexpected
  | some t =>
    obtain ⟨v, rfl, hdrop⟩ := Option.bind_eq_some_iff.1 hv
    obtain ⟨ht, hsilent⟩ := dropTag?_eq_some hdrop
    refine .passWord hsilent ?_
    refine .pushTag fun head => ?_
    refine .nodes builds_existsMark.from fun mark ms hms => ?_
    refine .node builds_tableName.from fun name f hf => ?_
    refine .pushList (l := .tag t :: ms ++ [f]) ?_ (.drop ht hms hf) ?_
    · rintro A ⟨⟨⟨_, hhead⟩, hmark⟩, hname⟩
      exact (hmark.cons hhead).append hname.single
    · have hplain : ∀ t ∈ [Tag.dropTable, .dropIndex, .dropView], t.isPlain = true := by decide
      simp [walk_plain (hplain t ht)]

/-! ### The whole grammar -/

/-- With room for any number of levels, rules build what they are there for. -/
theorem builds_context (settings : Settings) (room : Nat) :
    Context.Builds ⟨settings.overflow, enter settings room⟩ := by
  induction room with
  | zero =>
    constructor
    · exact fun power => .fails fun _ => ⟨_, _, rfl⟩
    · exact .fails fun _ => ⟨_, _, rfl⟩
    · exact .fails fun _ => ⟨_, _, rfl⟩
  | succ room ih =>
    constructor
    · exact fun power => builds_expression ih power
    · exact builds_query ih
    · exact builds_tableSource ih

/-- Statements are built if the rules that they enclose build what they are there for. -/
theorem builds_statement (h : c.Builds) : Builds (statement c) (Built IsStatement walk) := by
  refine .currentWord? fun v => ?_
  cases v with
  | none => exact .unexpected
  | some v =>
    cases v with
    | SELECT | VALUES | WITH =>
      refine h.query.from.imp ?_
      rintro id w A ⟨f, hf, hP, he⟩
      exact ⟨f, hf, .query hP, he⟩
    | INSERT => exact (builds_insert h).from
    | UPDATE => exact (builds_update h).from
    | DELETE => exact (builds_delete h).from
    | CREATE => exact (builds_create h).from
    | DROP => exact builds_drop.from
    | _ => exact .unexpected

end TaggedSql
