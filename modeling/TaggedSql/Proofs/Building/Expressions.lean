import TaggedSql.Proofs.Building.Basic

/-!
# What rules for expressions build

If the rules one level deeper build what they are there for, so do the rules for expressions: a rule
that succeeds has built an expression, and the operands of the expression stand for the tokens that
were taken.

* `builds_typeName`, `builds_call`, `builds_primary`: types, calls and operands without an operator;
* `builds_application`: a binary operator and what follows it;
* `builds_expression`: expressions of a power.
-/

namespace TaggedSql

open Rule Arena Form Expression

variable {c : Context} {F : Stream → Prop}

/-! ### Types -/

theorem builds_typeSize : Builds typeSize (Built (fun f => ∃ n, f = .integer n) walk) := by
  refine .current fun t => ?_
  cases ht : t.kind with
  | integer n =>
    refine .pushAtom rfl (fun s hs => ?_) ⟨n, rfl⟩
    rw [← hs.2] at ht
    exact Stream.spells_front (by rw [ht]; exact Kind.noConfusion) (.integer ht)
  | _ => exact .unexpected

/-- The words of a type stand for its name. -/
theorem builds_typeSpan : Builds typeSpan fun span w _ => w = [.typeName span] := by
  intro s span s' hrun _ _ _
  obtain ⟨words, hrest, hplain, rfl, harena⟩ := words_of_typeSpan hrun
  refine ⟨_, ?_, harena ▸ Grows.refl _, rfl⟩
  rw [hrest]
  exact Spells.single (.typeName hplain)

theorem builds_typeScale :
    Builds typeScale (BuiltAll (Optional fun f => ∃ n, f = .integer n) walkAll) := by
  refine builds_behind rfl ?_ .absent rfl
  refine .node builds_typeSize fun id f hf => ?_
  exact .giveAll (fun A hA => hA.2.single) (.present hf) (by simp)

theorem builds_typeName : Builds typeName (Built IsType walkType) := by
  rw [typeName_eq]
  refine .bind builds_typeSpan fun span w => .know (fun A hA => hA.2) ?_
  rintro rfl
  refine .push rfl fun name => ?_
  rw [typeSizes]
  refine .ifEat rfl ?_ (.give (fun A hA => hA.2) (.plain span) rfl)
  refine .pushTag fun head => ?_
  refine .node builds_typeSize.from fun size f hf => ?_
  obtain ⟨n, rfl⟩ := hf
  refine .nodes builds_typeScale.from fun scale fs hfs => ?_
  refine .expect rfl ?_
  refine .pushList (l := [.tag .sizedType, .name span, .integer n] ++ fs) ?_ ?_ ?_
  · rintro A ⟨⟨⟨⟨_, hname⟩, hhead⟩, hsize⟩, hscale⟩
    exact (((hsize.single.cons hname).cons hhead)).append hscale
  · cases hfs with
    | absent => exact .sized span n
    | present h =>
      obtain ⟨m, rfl⟩ := h
      exact .scaled span n m
  · rw [List.append_nil]
    rfl

/-! ### Names and calls -/

theorem builds_qualifiedName : Builds qualifiedName (Built IsExpression walk) := by
  refine .nodes (builds_separatedBy rfl builds_identifier) fun parts fs hfs => ?_
  cases hfs with
  | one h =>
    refine .know (p := parts.length = 1) (fun A hA => hA.2.length_eq) fun hlength => ?_
    obtain ⟨name, rfl⟩ := List.length_eq_one_iff.1 hlength
    obtain ⟨s⟩ := h
    refine .give (fun A hA => ?_) (.name s) rfl
    cases hA.2 with
    | cons h _ => exact h
  | @more _ fs h hs =>
    obtain ⟨s⟩ := h
    refine .know (p := 2 ≤ parts.length) (fun A hA => ?_) fun hlength => ?_
    · have hne := (several_iff.1 hs).1
      have hpos := List.length_pos_of_ne_nil hne
      rw [hA.2.length_eq, List.length_cons]
      omega
    obtain ⟨first, second, more, rfl⟩ : ∃ a b l, parts = a :: b :: l := by
      match parts, hlength with
      | a :: b :: l, _ => exact ⟨a, b, l, rfl⟩
    refine .pushList (fun A hA => hA.2) (.qualified hs) ?_
    show walkAll (.name s :: fs) = _
    rw [List.append_nil, walkAll_eq_flatMap]

/-- The condition of an aggregate, as its walk marks it. -/
theorem builds_aggregateFilter (h : c.Builds) :
    Builds (aggregateFilter c) (BuiltAll IsCondition walkCall) := by
  refine .current fun t => ?_
  refine .peek fun t' => ?_
  dsimp only
  split
  next hif =>
    simp only [Bool.and_eq_true, beq_iff_eq] at hif
    refine .advance (G := fun s => s.current.kind = .symbol .leftParen) (w := [.filter])
      (fun s hs => ?_) (fun s hs => ?_) ?_
    · rw [← hs.1.2] at hif
      exact Stream.spells_front (by rw [hif.1.1]; exact Kind.noConfusion) (.filter hif.1.1 hif.1.2)
    · rw [s.current_advance, hs.2]
      exact hif.2
    refine .pass (fun s hs => by rw [hs]; rfl) ?_
    refine .expect rfl ?_
    refine .node (h.expression 0).from fun condition f hf => ?_
    refine .expect rfl ?_
    refine .taggedThen (fun A hA => hA.2.single) fun id => ?_
    exact .giveAll (fun A hA => hA.2.single) (.present (.mk hf)) (by simp [walkCall])
  next => exact .giveAll (fun A _ => holdsAll_nil) .absent rfl

theorem builds_arguments (h : c.Builds) :
    Builds (arguments c) (BuiltAll (fun fs => ∀ e ∈ fs, IsExpression e) walkAll) := by
  have hitems : Builds (argumentItems c)
      (BuiltAll (fun fs => ∀ e ∈ fs, IsExpression e) walkAll) := by
    refine .at? fun b => ?_
    cases b with
    | true => exact .giveAll (fun A _ => holdsAll_nil) (by simp) rfl
    | false =>
      refine h.expressions.from.imp ?_
      rintro ids w A ⟨fs, hfs, hP, he⟩
      exact ⟨fs, hfs, (several_iff.1 hP).2, he⟩
  rw [arguments_eq]
  refine .nodes hitems fun items fs hfs => ?_
  refine .expect rfl ?_
  exact .giveAll (fun A hA => hA.2) hfs (by simp)

theorem builds_distinctMark : Builds distinctMark fun _ w _ => w = [] := by
  refine .ifEat rfl (.done fun _ _ => rfl) ?_
  exact .eat rfl (.done fun _ _ => rfl) (.done fun _ _ => rfl)

theorem builds_distinctNode (distinct : Bool) :
    Builds (distinctNode distinct) (BuiltAll (Mark [.distinct]) fun _ => []) := by
  cases distinct with
  | true =>
    refine .pushTag fun mark => ?_
    exact .giveAll (fun A hA => hA.2.single) (.present List.mem_cons_self) rfl
  | false => exact .giveAll (fun A _ => holdsAll_nil) .absent rfl

/-- An aggregate that a call means is that of its name, and of few enough arguments. -/
theorem calledAggregate?_eq_some {aggregate : Option Tag} {items : List NodeId} {t : Tag}
    (h : calledAggregate? aggregate items = some t) :
    aggregate = some t ∧ (t = .min ∨ t = .max → items.length ≤ 1) := by
  rw [calledAggregate?, Option.filter_eq_some_iff] at h
  refine ⟨h.1, fun ht => ?_⟩
  have hfew := h.2
  rcases ht with rfl | rfl <;> simpa using hfew

/-- A name means an aggregate only if it is not quoted. -/
theorem namedAggregate?_eq_some {quoted : Bool} {name : Token} {t : Tag}
    (h : namedAggregate? quoted name = some t) :
    quoted = false ∧ Tag.aggregate? name.text.toList = some t := by
  cases quoted with
  | true => cases h
  | false => exact ⟨rfl, h⟩

theorem mem_aggregateTags {cs : List Char} {t : Tag} (h : Tag.aggregate? cs = some t) :
    t ∈ aggregateTags := by
  rw [Tag.aggregate?, Option.map_eq_some_iff] at h
  obtain ⟨entry, hfind, rfl⟩ := h
  have hall : ∀ entry ∈ Tag.aggregates, entry.2 ∈ aggregateTags := by decide
  exact hall entry (List.mem_of_find?_eq_some hfind)

theorem walkCall_arguments {es : List Form} (h : ∀ e ∈ es, IsExpression e) :
    walkCall [.list es] = walkAll es := by
  rw [walkCall_cons_of_ne, walk_expressions h, walkCall, List.append_nil]
  intro e heq
  cases heq
  have htag := h _ List.mem_cons_self
  cases htag with
  | constant h => revert h; decide

theorem walkCall_mark {mark : List Form} (h : Mark [.distinct] mark) : walkCall mark = [] := by
  cases h with
  | absent => rfl
  | present => rfl

/-- The node of a call stands for the name of its function and for its arguments. -/
theorem builds_callNode (h : c.Builds) {t : Token} {quoted : Bool}
    (ht : t.kind = .identifier quoted) (distinct : Bool) {items : List NodeId} {fs : List Form}
    (hfs : ∀ e ∈ fs, IsExpression e) :
    BuildsFrom F (fun A => A.HoldsAll items fs)
      (callNode c t distinct items (calledAggregate? (namedAggregate? quoted t) items))
      fun id w A => ∃ i : Operand, (∀ ts, i.Stands [t] ts) ∧
        Built IsExpression walk id (i :: (walkAll fs ++ w)) A := by
  cases hcalled : calledAggregate? (namedAggregate? quoted t) items with
  | some a =>
    obtain ⟨hnamed, hfew⟩ := calledAggregate?_eq_some hcalled
    obtain ⟨rfl, ha⟩ := namedAggregate?_eq_some hnamed
    refine BuildsFrom.imp (V := fun id w A =>
      Built IsExpression walk id (.aggregate a :: (walkAll fs ++ w)) A) ?_
      fun id w A hA => ⟨_, fun ts => .aggregate ht ha, hA⟩
    refine .know (p := items.length = fs.length) (fun A hA => hA.length_eq) fun hlength => ?_
    refine .pushTag fun head => ?_
    refine .pushTag fun function => ?_
    refine .nodes (builds_distinctNode distinct).from fun mark ms hms => ?_
    refine .pushListThen (fun A hA => hA.1.1.1) fun list => ?_
    refine .nodes (builds_aggregateFilter h).from fun filter gs hgs => ?_
    refine .pushList (l := [.tag .aggregateFunction, .tag a] ++ ms ++ [.list fs] ++ gs) ?_
      (.aggregate (mem_aggregateTags ha) hms hfs (hlength ▸ hfew) hgs) ?_
    · rintro A ⟨⟨⟨⟨⟨_, hhead⟩, hfunction⟩, hmark⟩, hlist⟩, hfilter⟩
      exact (((hfunction.single.cons hhead).append hmark).append hlist.single).append hfilter
    · show Operand.aggregate a :: walkCall (ms ++ [.list fs] ++ gs) = _
      rw [walkCall_append, walkCall_append, walkCall_mark hms, walkCall_arguments hfs]
      simp
  | none =>
    refine BuildsFrom.imp (V := fun id w A =>
      Built IsExpression walk id (.name t.span :: (walkAll fs ++ w)) A) ?_
      fun id w A hA => ⟨_, fun ts => .name (by rw [ht]; rfl), hA⟩
    refine .pushTag fun head => ?_
    refine .push rfl fun function => ?_
    refine .nodes (builds_distinctNode distinct).from fun mark ms hms => ?_
    refine .pushListThen (fun A hA => hA.1.1.1) fun list => ?_
    refine .pushList (l := [.tag .function, .name t.span] ++ ms ++ [.list fs]) ?_
      (.function hms hfs) ?_
    · rintro A ⟨⟨⟨⟨_, hhead⟩, hfunction⟩, hmark⟩, hlist⟩
      exact ((hfunction.single.cons hhead).append hmark).append hlist.single
    · simp (disch := decide) [walkAll_mark hms, walk_expressions hfs]

theorem builds_countNode (h : c.Builds) :
    Builds (countNode c) fun id w A =>
      Built IsExpression walk id (.aggregate .countStar :: w) A := by
  refine .expect rfl ?_
  refine .pushTag fun head => ?_
  refine .pushTag fun function => ?_
  refine .pushListThen (fun A _ => holdsAll_nil) fun list => ?_
  refine .nodes (builds_aggregateFilter h).from fun filter gs hgs => ?_
  refine .pushList (l := [.tag .aggregateFunction, .tag .countStar, .list []] ++ gs) ?_
    (.countStar hgs) ?_
  · rintro A ⟨⟨⟨⟨_, hhead⟩, hfunction⟩, hlist⟩, hfilter⟩
    exact ((hlist.single.cons hfunction).cons hhead).append hfilter
  · show Operand.aggregate .countStar :: walkCall ([.list []] ++ gs) = _
    rw [walkCall_append, List.append_nil]
    rfl

/-- A star counts rows only behind the name of the count. -/
theorem builds_countStar (aggregate : Option Tag) :
    Builds (countStar aggregate) fun b w _ => w = [] ∧ (b = true → aggregate = some .count) := by
  rw [countStar]
  split
  next hcount =>
    rw [← bind_pure (eat _)]
    exact .eat rfl (.done fun _ _ => ⟨rfl, fun _ => eq_of_beq hcount⟩)
      (.done fun _ _ => ⟨rfl, fun h => nomatch h⟩)
  next => exact .done fun _ _ => ⟨rfl, fun h => nomatch h⟩

/-- A call at a name. -/
theorem builds_call (h : c.Builds) {t : Token} {quoted : Bool} (ht : t.kind = .identifier quoted)
    (hF : ∀ s, F s → s.current = t) :
    BuildsFrom F (fun _ => True) (call c quoted) (Built IsExpression walk) := by
  rw [call_eq]
  refine .current fun t' => ?_
  refine .knowStream (p := t' = t) (fun s hs => hs.2.symm.trans (hF s hs.1)) ?_
  rintro rfl
  refine .advanceFor (by rw [ht]; exact Kind.noConfusion) (fun s hs => hs.2) ?_
  refine .expect rfl ?_
  refine .bind (builds_countStar _).from fun countsRows w => .know (fun A hA => hA.2) ?_
  rintro ⟨rfl, hcounts⟩
  cases countsRows with
  | true =>
    obtain ⟨rfl, ha⟩ := namedAggregate?_eq_some (hcounts rfl)
    refine (builds_countNode h).from.imp fun id w A hA => ?_
    exact ⟨_, fun ts => .countStar ht ha, hA⟩
  | false =>
    refine .bind builds_distinctMark.from fun distinct w => .know (fun A hA => hA.2) ?_
    rintro rfl
    refine .nodes (builds_arguments h).from fun items fs hfs => ?_
    exact (builds_callNode h ht distinct hfs).weaken (fun _ hs => hs) fun A hA => hA.2

/-! ### Primaries -/

/-- One more branch of `CASE` behind the others, unless none can follow. -/
theorem builds_caseBranch (h : c.Builds) {parts : List NodeId} {l : List Form}
    {V : Option (List NodeId) → List Operand → Arena → Prop}
    (hnone : BuildsFrom (fun s => F s ∧ s.current.kind ≠ .word .WHEN)
      (fun A => A.HoldsAll parts l) (pure none) V)
    (hsome : ∀ ids f g A, IsExpression f → IsExpression g → A.HoldsAll ids (l ++ [f, g]) →
      V (some ids) (walk f ++ walk g) A) :
    BuildsFrom F (fun A => A.HoldsAll parts l) (caseBranch c parts) V := by
  refine .eat rfl ?_ hnone
  refine .node (h.expression 0).from fun condition f hf => ?_
  refine .expect rfl ?_
  refine .node (h.expression 0).from fun result g hg => ?_
  refine .done ?_
  rintro A ⟨⟨hparts, hcondition⟩, hresult⟩
  rw [List.append_nil]
  exact hsome _ f g A hf hg (hparts.append (hresult.single.cons hcondition))

/-- At the word `WHEN` one or more branches follow. -/
theorem builds_caseBranches (h : c.Builds) (hF : ∀ s, F s → s.current.kind = .word .WHEN) :
    BuildsFrom F (fun _ => True) (iterate (caseBranch c) [])
      (BuiltAll (Pairs IsExpression) walkAll) := by
  refine .iterateFirst ?_ fun parts w => ?_
  · refine (builds_caseBranch (l := []) h (.absurd fun s hs => hs.2 (hF s hs.1)) ?_).weaken
      (fun _ hs => hs) fun A _ => holdsAll_nil
    intro ids f g A hf hg hids
    exact ⟨ids, rfl, [f, g], hids, .one hf hg, by simp⟩
  · refine .openAllOnly fun fs hfs hw => ?_
    refine builds_caseBranch h (.done fun _ _ => rfl) fun ids f g A hf hg hids => ?_
    exact ⟨fs ++ [f, g], hids, hfs.concat hf hg, by simp [hw]⟩

theorem builds_caseOperand (h : c.Builds) :
    Builds (caseOperand c) (BuiltAll (Optional IsExpression) walkAll) := by
  refine .at? fun b => ?_
  cases b with
  | true => exact .giveAll (fun A _ => holdsAll_nil) .absent rfl
  | false =>
    refine .node (h.expression 0).from fun operand f hf => ?_
    exact .giveAll (fun A hA => hA.2.single) (.present hf) (by simp)

theorem builds_caseElse (h : c.Builds) :
    Builds (caseElse c) (BuiltAll (Optional (Clause IsExpression .elseBranch)) walkAll) := by
  refine builds_behind rfl ?_ .absent rfl
  refine .node (h.expression 0) fun result f hf => ?_
  refine .taggedThen (fun A hA => hA.2.single) fun id => ?_
  exact .giveAll (fun A hA => hA.2.single) (.present (.mk hf)) (by simp (disch := decide))

theorem builds_caseExpression (h : c.Builds) :
    Builds (caseExpression c) (Built IsExpression walk) := by
  rw [caseExpression_eq]
  refine .expect rfl ?_
  refine .pushTag fun head => ?_
  refine .nodes (builds_caseOperand h).from fun operand fs hfs => ?_
  refine .at? fun b => ?_
  cases b with
  | false => exact .fails fun _ => ⟨_, _, rfl⟩
  | true =>
    rw [require, if_pos rfl, pure_bind]
    refine .nodes ((builds_caseBranches h fun s hs => eq_of_beq hs.2).weaken (fun _ hs => hs)
      fun _ _ => trivial) fun branches gs hgs => ?_
    refine .nodes (builds_caseElse h).from fun otherwise ls hls => ?_
    refine .expect rfl ?_
    refine .pushList (l := .tag .caseOf :: fs ++ gs ++ ls) ?_ (.caseOf hfs hgs hls) ?_
    · rintro A ⟨⟨⟨⟨_, hhead⟩, hoperand⟩, hbranches⟩, hotherwise⟩
      exact ((hoperand.cons hhead).append hbranches).append hotherwise
    · simp (disch := decide)

theorem builds_cast (h : c.Builds) : Builds (cast c) (Built IsExpression walk) := by
  refine .expect rfl ?_
  refine .expect rfl ?_
  refine .node (h.expression 0).from fun operand f hf => ?_
  refine .expect rfl ?_
  refine .node builds_typeName.from fun type g hg => ?_
  refine .expect rfl ?_
  exact .tagged (fun A hA => hA.2.single.cons hA.1.2) (.cast hf hg) (by simp [walk_cast f hg])

theorem builds_existsQuery (h : c.Builds) (hF : ∀ s, F s → s.current.kind.isSilent = true) :
    BuildsFrom F (fun _ => True) (existsQuery c) (Built IsExpression walk) := by
  refine .pass hF ?_
  refine .node h.parenthesizedQuery fun query f hf => ?_
  exact .tagged (fun A hA => hA.2.single) (.existsQuery hf) (by simp (disch := decide))

theorem builds_parenthesized (h : c.Builds) (hF : ∀ s, F s → s.current.kind.isSilent = true) :
    BuildsFrom F (fun _ => True) (parenthesized c) (Built IsExpression walk) := by
  have hinner : Builds (enclosed c) (Built IsExpression walk) := by
    refine .atQuery fun b => ?_
    cases b with
    | true =>
      refine .node h.query fun query f hf => ?_
      exact .tagged (fun A hA => hA.2.single) (.scalarSubquery hf) (by simp (disch := decide))
    | false => exact h.expression 0
  rw [parenthesized_eq]
  refine .pass hF ?_
  refine .node hinner fun inner f hf => ?_
  refine .expect rfl ?_
  exact .give (fun A hA => hA.2) hf (by simp)

theorem builds_parameter {t : Token} {named : Bool} (ht : t.kind = .parameter named)
    (hF : ∀ s, F s → s.current = t) :
    BuildsFrom F (fun _ => True) (parameter named t.span) (Built IsExpression walk) := by
  cases named with
  | false =>
    refine .pass (fun s hs => by rw [hF s hs, ht]; rfl) ?_
    exact .tagged (fun A _ => holdsAll_nil) .positional rfl
  | true =>
    refine .advance (G := fun _ => True) (w := [.parameter t.span]) (fun s hs => ?_)
      (fun _ _ => trivial) ?_
    · rw [← hF s hs] at ht ⊢
      exact Stream.spells_front (by rw [ht]; exact Kind.noConfusion) (.parameter ht)
    · refine .push rfl fun name => ?_
      exact .tagged (fun A hA => hA.2.single) (.parameter t.span) rfl

theorem builds_leastMagnitude {t : Token} (ht : t.kind = .leastMagnitude)
    (hF : ∀ s, F s → s.current = t) (policy : OverflowPolicy) :
    BuildsFrom F (fun _ => True) (leastMagnitude policy t) (Built IsExpression walk) := by
  cases policy with
  | promote =>
    refine .pushAtom rfl (fun s hs => ?_) (.float _)
    rw [← hF s hs] at ht
    exact Stream.spells_front (by rw [ht]; exact Kind.noConfusion) (.promoted ht)
  | reject => exact .fails fun _ => ⟨_, _, rfl⟩

/-- A literal at the front. -/
theorem builds_literal {t : Token} {node : Node} {f : Form} {i : Operand}
    (hleaf : node.leaf? = some f) (hF : ∀ s, F s → s.current = t) (ht : t.kind ≠ .endOfInput)
    (hi : ∀ ts, i.Stands [t] ts) (hwalk : walk f = [i]) (hf : IsExpression f) :
    BuildsFrom F (fun _ => True) (pushAtom node) (Built IsExpression walk) := by
  refine .pushAtom hleaf (fun s hs => ?_) hf
  rw [← hF s hs] at ht hi
  rw [hwalk]
  exact Stream.spells_front ht (hi _)

theorem builds_primary (h : c.Builds) :
    BuildsFrom F (fun _ => True) (primary c) (Built IsExpression walk) := by
  refine .current fun t => ?_
  have hfront : ∀ s : Stream, F s ∧ s.current = t → s.current = t := fun s hs => hs.2
  cases ht : t.kind with
  | integer n =>
    exact builds_literal rfl hfront (by simp [ht]) (fun ts => .integer ht) rfl (.integer n)
  | leastMagnitude => exact builds_leastMagnitude ht hfront _
  | float x => exact builds_literal rfl hfront (by simp [ht]) (fun ts => .float ht) rfl (.float x)
  | string => exact builds_literal rfl hfront (by simp [ht]) (fun ts => .string ht) rfl (.string _)
  | blob => exact builds_literal rfl hfront (by simp [ht]) (fun ts => .blob ht) rfl (.blob _)
  | identifier quoted =>
    refine .peek fun t' => ?_
    split
    next => exact builds_call h ht fun s hs => hfront s hs.1
    next => exact builds_qualifiedName.from
  | parameter named => exact builds_parameter ht hfront
  | symbol x =>
    cases x with
    | leftParen => exact builds_parenthesized h fun s hs => by rw [hs.2, ht]; rfl
    | _ => exact .unexpected
  | word w =>
    have hsilent : (Kind.word w).isSilent = true →
        ∀ s : Stream, F s ∧ s.current = t → s.current.kind.isSilent = true := by
      intro hw s hs
      rwa [hs.2, ht]
    cases w with
    | CASE => exact (builds_caseExpression h).from
    | CAST => exact (builds_cast h).from
    | EXISTS => exact builds_existsQuery h (hsilent rfl)
    | NULL | TRUE | FALSE | CURRENT_DATE | CURRENT_TIME | CURRENT_TIMESTAMP =>
      exact .pushAtom rfl (fun s hs => s.spells_silent (hsilent rfl s hs)) (.constant (by decide))
    | _ => exact .unexpected
  | endOfInput => exact .unexpected
  | problem p => exact .unexpected

/-! ### Operators -/

/-- A minus sign and the integer `2 ^ 63` together are the least integer. -/
theorem builds_least {F : Stream → Prop} (hF : ∀ s, F s → s.current.kind = .symbol .minus ∧
    (s.peek 1).kind = .leastMagnitude) :
    BuildsFrom F (fun _ => True) (advance >>= fun _ => pushAtom (.integer Int64.minValue))
      (Built IsExpression walk) := by
  intro s id s' hrun hs hsound _
  obtain ⟨hsign, hleast⟩ := hF _ hs
  obtain ⟨_, s₁, hadvance, hrun⟩ := bind_eq_ok hrun
  obtain ⟨rfl, _⟩ := checkSpelling_eq_ok hadvance
  obtain ⟨_, s₂, hpush, hrun⟩ := bind_eq_ok hrun
  cases hpush
  obtain ⟨_, s₃, hadvance', hrun⟩ := bind_eq_ok hrun
  obtain ⟨rfl, _⟩ := checkSpelling_eq_ok hadvance'
  cases hrun
  refine ⟨[.integer Int64.minValue], ?_, grows_push rfl, _, holds_push rfl, .integer _, rfl⟩
  rw [← s.stream.current_advance] at hleast
  rw [Stream.rest_eq_cons (by rw [hsign]; exact Kind.noConfusion),
    Stream.rest_eq_cons (by rw [hleast]; exact Kind.noConfusion)]
  exact Spells.single (.least hsign hleast)

/-- The token of a prefix operator is silent, or the sign before something else than `2 ^ 63`. -/
theorem spells_unary {s : Stream} {t : Tag} {power : Nat}
    (h : s.current.kind.unary? = some (t, power))
    (hleast : s.current.kind = .symbol .minus → (s.peek 1).kind ≠ .leastMagnitude) :
    t ∈ unaryTags ∧ Spells (signOf t) s.rest s.advance.rest := by
  unfold Kind.unary? at h
  split at h
  next hkind =>
    cases h
    exact ⟨by decide, s.spells_silent (by rw [hkind]; rfl)⟩
  next hkind =>
    cases h
    refine ⟨by decide, Stream.spells_front (by rw [hkind]; exact Kind.noConfusion) (.sign hkind ?_)⟩
    intro u hu
    rw [s.advance.head?_rest, s.current_advance] at hu
    cases hu
    exact hleast hkind
  next hkind =>
    cases h
    exact ⟨by decide, s.spells_silent (by rw [hkind]; rfl)⟩
  next hkind =>
    cases h
    exact ⟨by decide, s.spells_silent (by rw [hkind]; rfl)⟩
  next => cases h

theorem builds_operand (h : c.Builds) : Builds (operand c) (Built IsExpression walk) := by
  refine .current fun t => ?_
  refine .peek fun t' => ?_
  split
  next hif =>
    simp only [Bool.and_eq_true, beq_iff_eq] at hif
    exact builds_least fun s hs => ⟨by rw [hs.1.2, hif.1], by rw [hs.2, hif.2]⟩
  next hif =>
    cases hoperator : t.kind.unary? with
    | none => exact builds_primary h
    | some operator =>
      obtain ⟨tag, power⟩ := operator
      have hspells : ∀ s : Stream, (True ∧ s.current = t) ∧ s.peek 1 = t' →
          tag ∈ unaryTags ∧ Spells (signOf tag) s.rest s.advance.rest := by
        rintro s ⟨⟨_, rfl⟩, rfl⟩
        refine spells_unary hoperator fun hsign hleast => hif ?_
        rw [hsign, hleast]
        rfl
      refine .knowStream (fun s hs => (hspells s hs).1) fun htag => ?_
      refine .advance (G := fun _ => True) (fun s hs => (hspells s hs).2) (fun _ _ => trivial) ?_
      refine .node (h.expression power) fun inner f hf => ?_
      exact .tagged (fun A hA => hA.2.single) (.unary htag hf) (by simp [walk_unary htag])

/-- A node, negated or not. -/
theorem builds_negatedNode {K : Arena → Prop} [Stable K] (negated : Bool) {node : NodeId}
    {f : Form} (hK : ∀ A, K A → A.Holds node f) (hf : IsExpression f) :
    BuildsFrom F K (negatedNode negated node) fun id w A =>
      Built IsExpression walk id (walk f ++ w) A := by
  cases negated with
  | true =>
    refine .tagged (fun A hA => (hK A hA).single) (.unary (by decide) hf) ?_
    simp (disch := decide)
  | false => exact .give hK hf (by simp)

section Application

variable {left : NodeId} {power : Nat} {l : Form}

theorem builds_isSame (h : c.Builds) (hl : IsExpression l) :
    BuildsFrom F (fun A => A.Holds left l) (isSame c left power) fun id w A =>
      Built IsExpression walk id (walk l ++ w) A := by
  rw [isSame_eq]
  refine .expect rfl ?_
  have hrest : ∀ negated, BuildsFrom (fun _ => True) (fun A => A.Holds left l)
      (do
        let right ← c.enter (.expression power)
        let comparison ← tagged .isSame [left, right]
        negatedNode negated comparison)
      fun id w A => Built IsExpression walk id (walk l ++ w) A := by
    intro negated
    refine .node (h.expression power).from fun right f hf => ?_
    refine .taggedThen (fun A hA => hA.2.single.cons hA.1) fun comparison => ?_
    have hcomparison : IsExpression (.list [.tag .isSame, l, f]) := .binary (by decide) hl hf
    have hwalk : walk (.list [.tag .isSame, l, f]) = walk l ++ walk f := by simp (disch := decide)
    refine (builds_negatedNode negated (fun A hA => hA.2) hcomparison).imp fun id w A hA => ?_
    rwa [hwalk, List.append_assoc] at hA
  exact .eat rfl (hrest true) ((hrest false).weaken (fun _ _ => trivial) fun _ => id)

theorem builds_inList (h : c.Builds) (hl : IsExpression l) :
    BuildsFrom F (fun A => A.Holds left l) (inList c left) fun id w A =>
      Built IsExpression walk id (walk l ++ w) A := by
  refine .expect rfl ?_
  refine .expect rfl ?_
  refine .atQuery fun b => ?_
  cases b with
  | true =>
    refine .node h.query.from fun query q hq => ?_
    refine .expect rfl ?_
    exact .tagged (fun A hA => hA.2.single.cons hA.1) (.inQuery hl hq) (by simp (disch := decide))
  | false =>
    refine .nodes (builds_arguments h).from fun items fs hfs => ?_
    refine .pushListThen (fun A hA => hA.2) fun list => ?_
    refine .tagged (fun A hA => hA.2.single.cons hA.1.1) (.inList hl hfs) ?_
    simp (disch := decide) [walk_expressions hfs]

theorem builds_between (h : c.Builds) (hl : IsExpression l) :
    BuildsFrom F (fun A => A.Holds left l) (between c left power) fun id w A =>
      Built IsExpression walk id (walk l ++ w) A := by
  refine .expect rfl ?_
  refine .node (h.expression power).from fun low f hf => ?_
  refine .expect rfl ?_
  refine .node (h.expression power).from fun high g hg => ?_
  refine .tagged (fun A hA => (hA.2.single.cons hA.1.2).cons hA.1.1) (.between hl hf hg) ?_
  simp (disch := decide)

theorem builds_like (h : c.Builds) (hl : IsExpression l) :
    BuildsFrom F (fun A => A.Holds left l) (like c left power) fun id w A =>
      Built IsExpression walk id (walk l ++ w) A := by
  refine .expect rfl ?_
  refine .node (h.expression power).from fun pattern f hf => ?_
  refine .ifEat rfl ?_ ?_
  · refine .node (h.expression power).from fun escape g hg => ?_
    refine .tagged (fun A hA => (hA.2.single.cons hA.1.2).cons hA.1.1)
      (.like hl hf (.present hg)) ?_
    simp (disch := decide)
  · refine .tagged (fun A hA => hA.2.single.cons hA.1) (.like hl hf .absent) ?_
    simp (disch := decide)

/-- A plain binary operator is marked only if it is a minus sign, and silent otherwise. -/
theorem binary?_eq_plain {k : Kind} {t : Tag} {power : Nat}
    (h : k.binary? = some (.plain t, power)) (hsign : k ≠ .symbol .minus) :
    t ∈ binaryTags ∧ subtractOf t = [] ∧ k.isSilent = true := by
  unfold Kind.binary? at h
  split at h
  all_goals first
    | exact absurd rfl hsign
    | cases h <;> exact ⟨by decide, rfl, rfl⟩

/-- The token of a plain binary operator is silent, or the sign between two operands. -/
theorem spells_plain {s : Stream} {t : Tag} {power : Nat}
    (h : s.current.kind.binary? = some (.plain t, power)) :
    t ∈ binaryTags ∧ Spells (subtractOf t) s.rest s.advance.rest := by
  by_cases hsign : s.current.kind = .symbol .minus
  · rw [hsign] at h
    cases h
    refine ⟨by decide, Stream.spells_front (by rw [hsign]; exact Kind.noConfusion) ?_⟩
    exact .subtract hsign
  · obtain ⟨htag, hsubtract, hsilent⟩ := binary?_eq_plain h hsign
    rw [hsubtract]
    exact ⟨htag, s.spells_silent hsilent⟩

/-- An operator at the front and what follows it. -/
theorem builds_application (h : c.Builds) (hl : IsExpression l) {operator : BinaryOperator}
    (own : Nat) (hF : ∀ s, F s → s.current.kind.binary? = some (operator, own)) :
    BuildsFrom F (fun A => A.Holds left l) (application c left power operator) fun id w A =>
      Built IsExpression walk id (walk l ++ w) A := by
  cases operator with
  | isSame => exact builds_isSame h hl
  | inList => exact builds_inList h hl
  | between => exact builds_between h hl
  | like => exact builds_like h hl
  | plain tag =>
    refine .knowStream (fun s hs => (spells_plain (hF s hs)).1) fun htag => ?_
    refine .advance (G := fun _ => True) (fun s hs => (spells_plain (hF s hs)).2)
      (fun _ _ => trivial) ?_
    refine .node (h.expression power).from fun right f hf => ?_
    refine .tagged (fun A hA => hA.2.single.cons hA.1) (.binary htag hl hf) ?_
    simp [walk_binary htag]

end Application

/-- An operator that has been found, behind `NOT` if it is negated, extends an expression. -/
theorem builds_extension (h : c.Builds) {left : NodeId} {power : Nat} {l : Form}
    (hl : IsExpression l) (negated : Bool) {operator : BinaryOperator} (own : Nat)
    (hF : ∀ s, F s → (negated = true → s.current.kind = .word .NOT) ∧
      (if negated then s.peek 1 else s.current).kind.binary? = some (operator, own)) :
    BuildsFrom F (fun A => A.Holds left l)
      (do
        passNot negated
        let predicate ← application c left power operator
        return some (← negatedNode negated predicate))
      (OrNone fun id w A => Built IsExpression walk id (walk l ++ w) A) := by
  -- Behind `NOT`, if there is one, the operator stands at the front.
  have hoperator : BuildsFrom (fun s => s.current.kind.binary? = some (operator, own))
      (fun A => A.Holds left l)
      (do
        let predicate ← application c left power operator
        return some (← negatedNode negated predicate))
      (OrNone fun id w A => Built IsExpression walk id (walk l ++ w) A) := by
    refine .bind (builds_application h hl own fun _ hs => hs) fun predicate w => ?_
    refine .open fun f hf hw => ?_
    refine .bind (builds_negatedNode negated (fun A hA => hA.2) hf) fun id w' => ?_
    refine .done fun A hA => ?_
    show Built IsExpression walk id (walk l ++ (w ++ (w' ++ []))) A
    rw [List.append_nil, ← List.append_assoc, ← hw]
    exact hA.2
  cases negated with
  | false => exact hoperator.weaken (fun s hs => (hF s hs).2) fun _ hA => hA
  | true =>
    refine .advance (w := []) (fun s hs => s.spells_silent ?_) (fun s hs => ?_) hoperator
    · rw [(hF s hs).1 rfl]
      rfl
    · rw [s.current_advance]
      exact (hF s hs).2

theorem builds_extend (h : c.Builds) (power : Nat) (left : NodeId) (w : List Operand) :
    BuildsFrom (fun _ => True) (Built IsExpression walk left w) (extend c power left)
      (OrNone fun id w' A => Built IsExpression walk id (w ++ w') A) := by
  refine .openOnly fun l hl hw => ?_
  rw [extend_eq, ← hw]
  refine .current fun t => ?_
  refine .peek fun t' => ?_
  dsimp only
  split
  next => exact .done fun _ _ => rfl
  next operator own hfound =>
    split
    next => exact .done fun _ _ => rfl
    next =>
      refine builds_extension h hl _ own ?_
      rintro s ⟨⟨_, rfl⟩, rfl⟩
      cases hif : s.current.kind == .word .NOT && (s.peek 1).kind.isNegatable with
      | true =>
        rw [hif] at hfound
        simp only [Bool.and_eq_true, beq_iff_eq] at hif
        exact ⟨fun _ => hif.1, hfound⟩
      | false =>
        rw [hif] at hfound
        exact ⟨fun h => absurd h Bool.false_ne_true, hfound⟩

/-- Expressions are built if the rules one level deeper build what they are there for. -/
theorem builds_expression (h : c.Builds) (power : Nat) :
    Builds (expression c power) (Built IsExpression walk) := by
  refine .bind (builds_operand h) fun first w => ?_
  exact (BuildsFrom.iterate (builds_extend h power) first w).weaken (fun _ hs => hs) fun A hA => hA.2

end TaggedSql
