import TaggedSql.Proofs.Plan.Basic

/-!
# Plans of the grammar

A rule is planned together with the contexts in which its plan runs as the rule does. Sequences,
choices and repetitions of planned rules are planned, and so every rule of the grammar has a plan. The
plan of a rule follows the text of the rule: a step of the plan for each step of the rule, and a choice
where the rule chooses.

* `Planned`: a rule with a plan;
* `Inner`: a rule inside a statement, planned for all contexts that give no tokens back;
* `Planned.size_le`: such a rule gives no tokens back either;
* `Planned.bind`, `Planned.choose`, `Planned.iterate`: rules put together;
* `Expression.expressionPlan`, `Query.queryPlan`, `Query.tableSourcePlan`: the rules that may enclose
  each other;
* `Statement.bodyPlan`, `Statement.statementPlan`: the rule behind an entry, and statements;
* `Statement.singlePlan`, `Statement.scriptPlan`: whole sources.
-/

namespace TaggedSql

/-- A rule with a plan, for the contexts of a kind. -/
structure Planned (l : Layer) (C : Context → Prop) {α : Type} (rule : Context → Rule α) where
  plan : Plan l α
  run_eq : ∀ c, C c → plan.run c = rule c
  advances : ∀ c, C c → plan.Advances c

/-- A rule inside a statement with a plan. -/
abbrev Inner {α : Type} (rule : Context → Rule α) := Planned .statement Context.Steady rule

/-- A rule on a source with a plan, for the settings of a parse. -/
abbrev Outer (settings : Settings) {α : Type} (rule : Rule α) :=
  Planned .source (· = Statement.context settings) fun _ => rule

/-- A rule with a plan for states with a known token at the front. -/
structure PlannedAt (l : Layer) (C : Context → Prop) (t : Token) {α : Type}
    (rule : Context → Rule α) where
  plan : Plan l α
  run_eq : ∀ c, C c → ∀ s, s.stream.current = t → plan.run c s = rule c s
  advances : ∀ c, C c → plan.Advances c

section

variable {l : Layer} {C : Context → Prop} {α β : Type} {x y : Context → Rule α}

namespace PlannedAt

variable {t : Token}

def of_planned (h : Planned l C x) : PlannedAt l C t x where
  plan := h.plan
  run_eq c hc s _ := by rw [h.run_eq c hc]
  advances := h.advances

/-- A rule that fails at the token that it has looked at. -/
def fail (failure : Token → Failure) (located : ∀ t, (failure t).token = t) :
    PlannedAt l C t fun _ => (throw (failure t) : Rule α) where
  plan := .fail failure located
  run_eq _ _ s hs := by
    rw [← hs]
    rfl
  advances _ _ := trivial

/-- A rule that looks at the policy. -/
def policy {f : Context → OverflowPolicy → Rule α}
    (h : ∀ policy, PlannedAt l C t fun c => f c policy) : PlannedAt l C t fun c => f c c.policy where
  plan := .policy fun policy => (h policy).plan
  run_eq c hc := (h c.policy).run_eq c hc
  advances c hc policy := (h policy).advances c hc

end PlannedAt

namespace Planned

/-! ### Rules put together -/

/-- The same rule in another form. -/
def of_eq (h : Planned l C x) (heq : ∀ c, C c → y c = x c) : Planned l C y where
  plan := h.plan
  run_eq c hc := (h.run_eq c hc).trans (heq c hc).symm
  advances := h.advances

def done (a : α) : Planned l C fun _ => pure a where
  plan := .done a
  run_eq _ _ := rfl
  advances _ _ := trivial

def bind {f : Context → α → Rule β} (h : Planned l C x) (hf : ∀ a, Planned l C fun c => f c a) :
    Planned l C fun c => x c >>= f c where
  plan := h.plan.bind fun a => (hf a).plan
  run_eq c hc := by
    rw [Plan.run_bind, h.run_eq c hc]
    exact bind_congr fun a => (hf a).run_eq c hc
  advances c hc := Plan.advances_bind (h.advances c hc) fun a => (hf a).advances c hc

/-- One rule or another. -/
def choose {p : Prop} [Decidable p] (hx : Planned l C x) (hy : Planned l C y) :
    Planned l C fun c => if p then x c else y c where
  plan := if p then hx.plan else hy.plan
  run_eq c hc := by
    split
    · exact hx.run_eq c hc
    · exact hy.run_eq c hc
  advances c hc := by
    split
    · exact hx.advances c hc
    · exact hy.advances c hc

/-- A repetition, if its steps take a token whenever they go on. -/
def iterate {step : Context → α → Rule (Option α)} (h : ∀ a, Planned l C fun c => step c a)
    (hless : ∀ c, C c → Rule.Advancing (step c)) (a : α) :
    Planned l C fun c => Rule.iterate (step c) a where
  plan := .loop (fun a => (h a).plan) a .done
  run_eq c hc := by
    have hstep : (fun a => (h a).plan.run c) = step c := funext fun a => (h a).run_eq c hc
    rw [Plan.run, hstep]
    exact bind_pure _
  advances c hc := by
    have hstep : (fun a => (h a).plan.run c) = step c := funext fun a => (h a).run_eq c hc
    refine ⟨?_, fun a => (h a).advances c hc, fun _ => trivial⟩
    rw [hstep]
    exact hless c hc

/-! ### Looking at tokens -/

def peek (n : Fin 3) : Planned l C fun _ => Rule.peek n where
  plan := .look n .done
  run_eq _ _ := bind_pure _
  advances _ _ _ := trivial

def current : Planned l C fun _ => Rule.current := peek 0

def currentWord? : Planned l C fun _ => Rule.currentWord? := .bind current fun _ => .done _

def at? (t : Terminal) : Planned l C fun _ => Rule.at? t := .bind current fun _ => .done _

def atEnd : Planned l C fun _ => Rule.atEnd := .bind current fun _ => .done _

def atPlainIdentifier : Planned l C fun _ => Rule.atPlainIdentifier := .bind current fun _ => .done _

def atQuery : Planned l C fun _ => Rule.atQuery := by
  refine .bind currentWord? fun w => ?_
  split <;> exact .done _

/-- A rule that begins by looking at the token at the front. -/
def front {f : Context → Token → Rule α} (h : ∀ t, PlannedAt l C t fun c => f c t) :
    Planned l C fun c => Rule.current >>= f c where
  plan := .look 0 fun t => (h t).plan
  run_eq c hc := funext fun s => (h s.stream.current).run_eq c hc s rfl
  advances c hc t := (h t).advances c hc

/-! ### Failing and taking tokens -/

def fail (failure : Token → Failure) (located : ∀ t, (failure t).token = t) :
    Planned l C fun _ => (Rule.failAt failure : Rule α) where
  plan := .fail failure located
  run_eq _ _ := rfl
  advances _ _ := trivial

def unexpected (e : Expectation) : Planned l C fun _ => (Rule.unexpected e : Rule α) :=
  fail (.unexpected e) fun _ => rfl

def checkSpelling : Planned l C fun _ => Rule.checkSpelling := by
  refine .front fun t => ?_
  split
  · exact .fail (.lexical _) fun _ => rfl
  · exact .of_planned (.done ())

def take : Planned l C fun _ => Rule.take where
  plan := .take (.done ())
  run_eq _ _ := rfl
  advances _ _ := trivial

def advance : Planned l C fun _ => Rule.advance := .bind take fun _ => checkSpelling

def eat (t : Terminal) : Planned l C fun _ => Rule.eat t :=
  .bind (at? t) fun _ => .choose (.bind advance fun _ => .done true) (.done false)

def expect (t : Terminal) : Planned l C fun _ => Rule.expect t :=
  .bind (eat t) fun _ => .choose (.done ()) (unexpected _)

def require (b : Bool) (e : Expectation) : Planned l C fun _ => Rule.require b e :=
  .choose (.done ()) (unexpected e)

/-! ### Adding nodes -/

def push (node : Node) : Planned l C fun _ => Rule.push node where
  plan := .push node .done
  run_eq _ _ := bind_pure _
  advances _ _ _ := trivial

def pushTag (t : Tag) : Planned l C fun _ => Rule.pushTag t := push (.tag t)

def pushList (items : List NodeId) : Planned l C fun _ => Rule.pushList items where
  plan := .pushList items .done
  run_eq _ _ := bind_pure _
  advances _ _ _ := trivial

def tagged (t : Tag) (items : List NodeId) : Planned l C fun _ => Rule.tagged t items :=
  .bind (pushTag t) fun _ => pushList _

def pushAtom (node : Node) : Planned l C fun _ => Rule.pushAtom node :=
  .bind (push node) fun id => .bind advance fun _ => .done id

def identifier : Planned l C fun _ => Rule.identifier :=
  .bind current fun _ => .choose (pushAtom _) (unexpected _)

def harvest : Planned l C fun _ => Rule.harvest where
  plan := .harvest .done
  run_eq _ _ := bind_pure _
  advances _ _ _ := trivial

/-! ### Entering rules -/

def enter (entry : Entry) : Inner fun c => c.enter entry where
  plan := .enter entry .done
  run_eq _ _ := bind_pure _
  advances _ _ _ := trivial

def statement : Planned .source C fun c => Statement.statement c where
  plan := .statement .done
  run_eq _ _ := bind_pure _
  advances _ _ _ := trivial

end Planned

end

/-! ### Rules that give no tokens back -/

/-- No step gives tokens back, unless a statement does. -/
theorem closed_size_le {l : Layer} {c : Context} (hc : c.Steady)
    (hstatement : l = .source →
      ∀ s, (Rule.after (Statement.statement c) s).stream.size ≤ s.stream.size) :
    Closed l c fun x s => (Rule.after x s).stream.size ≤ s.stream.size where
  done _ _ := Nat.le_refl _
  bind := by
    intro _ _ x f s hle hf
    cases hrun : x s with
    | error e s' => rwa [Rule.after_of_error hrun, ← Rule.after_of_error (Rule.bind_of_error hrun)] at hle
    | ok a s' =>
      rw [Rule.after_of_ok hrun] at hle
      have hrest : Rule.after (x >>= f) s = Rule.after (f a) s' := by
        rw [Rule.after, Rule.bind_of_ok hrun]
        rfl
      rw [hrest]
      exact (hf a s' hrun).trans hle
  look _ _ _ := Nat.le_refl _
  take s := by
    show s.stream.ahead.tail.length ≤ s.stream.ahead.length
    rw [List.length_tail]
    exact Nat.sub_le _ 1
  fail _ _ _ := Nat.le_refl _
  push _ _ := Nat.le_refl _
  pushList _ _ := Nat.le_refl _
  harvest _ := Nat.le_refl _
  enter _ := hc.size_le
  statement := hstatement

namespace Planned

variable {α : Type} {x : Context → Rule α} {c : Context}

/-- What holds of every step holds of a rule with a plan. -/
theorem holds {l : Layer} {C : Context → Prop} {P : {α : Type} → Rule α → ParseState → Prop}
    (h : Planned l C x) (hP : Closed l c P) (hc : C c) (s : ParseState) : P (x c) s := by
  rw [← h.run_eq c hc]
  exact hP.run h.plan (h.advances c hc) s

theorem size_le (h : Inner x) (hc : c.Steady) (s : ParseState) :
    (Rule.after (x c) s).stream.size ≤ s.stream.size :=
  h.holds (closed_size_le hc fun h => nomatch h) hc s

/-- A step that goes on only behind a terminal takes a token. -/
theorem advancing_behind {t : Terminal} {rest : α → Rule (Option α)}
    (hrest : ∀ a s, (Rule.after (rest a) s).stream.size ≤ s.stream.size) :
    Rule.Advancing fun a => (do if ← Rule.eat t then rest a else return none) := by
  intro a s b s' hstep
  obtain ⟨eaten, s₁, heat, h⟩ := Rule.bind_eq_ok hstep
  rcases Rule.eat_eq_ok heat with ⟨rfl, hkind, rfl⟩ | ⟨rfl, rfl⟩
  · have hend : s.stream.current.kind ≠ .endOfInput := by
      rw [hkind]
      cases t <;> exact Kind.noConfusion
    have hshorter := Stream.size_advance hend
    have hle := hrest a ⟨s.stream.advance, s.arena⟩
    rw [if_pos rfl] at h
    rw [Rule.after_of_ok h] at hle
    exact Nat.lt_of_le_of_lt hle (Nat.lt_of_succ_le (Nat.le_of_eq hshorter))
  · cases h

/-! ### Several items -/

/-- A rule that is tried only behind a terminal. -/
def behind (t : Terminal) {x : Context → Rule (List NodeId)} (h : Inner x) :
    Inner fun c => Rule.behind t (x c) :=
  .bind (.eat t) fun _ => .choose h (.done [])

def separatedBy (t : Terminal) (h : Inner x) : Inner fun c => Rule.separatedBy t (x c) :=
  .bind h fun first =>
    have hitem : ∀ items : List α, Inner fun c => (do return some (items ++ [← x c])) :=
      fun _ => .bind h fun _ => .done _
    .iterate (fun items => .bind (.eat t) fun _ => .choose (hitem items) (.done none))
      (fun _ hc => advancing_behind fun items => (hitem items).size_le hc) [first]

def commaSeparated (h : Inner x) : Inner fun c => Rule.commaSeparated (x c) :=
  separatedBy (.symbol .comma) h

def identifiers : Inner fun _ => Rule.identifiers := commaSeparated .identifier

/-! ### Deeper rules -/

def expression : Inner Context.expression := .enter _

def expressions : Inner Context.expressions := commaSeparated expression

def query : Inner Context.query := .enter _

def requiredQuery : Inner Context.requiredQuery :=
  .bind .atQuery fun _ => .choose query (.unexpected _)

def parenthesizedQuery : Inner Context.parenthesizedQuery :=
  .bind (.expect _) fun _ => .bind requiredQuery fun query => .bind (.expect _) fun _ => .done query

end Planned

open Rule

/-! ### Expressions -/

namespace Expression

def typeSizePlan : Inner fun _ => typeSize := by
  refine .bind .current fun t => ?_
  split
  · exact .pushAtom _
  · exact .unexpected _

def typeWordsPlan (stop : Nat) : Inner fun _ => typeWords stop := by
  refine .iterate (fun _ => .bind .current fun t => .bind .atPlainIdentifier fun _ =>
    .choose (.bind .advance fun _ => .done _) (.done none)) (fun c _ => ?_) stop
  -- A word of a type is not the end of the source, so taking it leaves fewer tokens.
  intro _ s _ s' h
  change (current >>= _) s = _ at h
  rw [bind_of_ok (current_run s), bind_of_ok (atPlainIdentifier_run s)] at h
  split at h
  next hword =>
    obtain ⟨_, s₁, hadvance, h⟩ := bind_eq_ok h
    obtain ⟨rfl, _⟩ := checkSpelling_eq_ok hadvance
    cases h
    have hend : s.stream.current.kind ≠ .endOfInput := by
      rw [eq_of_beq hword]
      exact Kind.noConfusion
    exact Nat.lt_of_succ_le (Nat.le_of_eq (Stream.size_advance hend))
  next => cases h

def typeSpanPlan : Inner fun _ => typeSpan :=
  .bind .atPlainIdentifier fun _ => .bind (.require _ _) fun _ => .bind .current fun _ =>
    .bind .advance fun _ => .bind (typeWordsPlan _) fun _ => .done _

def typeSizesPlan (name : NodeId) : Inner fun _ => typeSizes name :=
  .bind (.eat _) fun _ => .choose
    (.bind (.pushTag _) fun _ => .bind typeSizePlan fun _ =>
      .bind (.behind _ (.bind typeSizePlan fun _ => .done _)) fun _ =>
        .bind (.expect _) fun _ => .pushList _)
    (.done name)

def typeNamePlan : Inner fun _ => typeName :=
  (Planned.bind typeSpanPlan fun _ => .bind (.push _) fun name => typeSizesPlan name).of_eq
    fun _ _ => typeName_eq

def qualifiedNamePlan : Inner fun _ => qualifiedName := by
  refine .bind (.separatedBy _ .identifier) fun parts => ?_
  split
  · exact .done _
  · exact .pushList _

def aggregateFilterPlan : Inner aggregateFilter :=
  .bind .current fun _ => .bind (.peek 1) fun _ => .choose
    (.bind .advance fun _ => .bind .advance fun _ => .bind (.expect _) fun _ =>
      .bind .expression fun _ => .bind (.expect _) fun _ => .bind (.tagged _ _) fun _ => .done _)
    (.done [])

def argumentsPlan : Inner arguments :=
  (Planned.bind (.bind (.at? _) fun _ => .choose (.done []) .expressions) fun items =>
    .bind (.expect _) fun _ => .done items).of_eq fun c _ => arguments_eq c

def distinctMarkPlan : Inner fun _ => distinctMark :=
  .bind (.eat _) fun _ => .choose (.done true) (.bind (.eat _) fun _ => .done false)

def distinctNodePlan (distinct : Bool) : Inner fun _ => distinctNode distinct :=
  .choose (.bind (.pushTag _) fun _ => .done _) (.done [])

def callNodePlan (name : Token) (distinct : Bool) (items : List NodeId) (aggregate : Option Tag) :
    Inner fun c => callNode c name distinct items aggregate :=
  match aggregate with
  | some _ => .bind (.pushTag _) fun _ => .bind (.pushTag _) fun _ =>
    .bind (distinctNodePlan distinct) fun _ => .bind (.pushList _) fun _ =>
      .bind aggregateFilterPlan fun _ => .pushList _
  | none => .bind (.pushTag _) fun _ => .bind (.push _) fun _ =>
    .bind (distinctNodePlan distinct) fun _ => .bind (.pushList _) fun _ => .pushList _

def countNodePlan : Inner countNode :=
  .bind (.expect _) fun _ => .bind (.pushTag _) fun _ => .bind (.pushTag _) fun _ =>
    .bind (.pushList _) fun _ => .bind aggregateFilterPlan fun _ => .pushList _

def callPlan (quoted : Bool) : Inner fun c => call c quoted :=
  (Planned.bind .current fun name => .bind .advance fun _ => .bind (.expect _) fun _ =>
    .bind (.choose (p := namedAggregate? quoted name == some .count) (.eat _) (.done false)) fun _ =>
      .choose countNodePlan (.bind distinctMarkPlan fun distinct => .bind argumentsPlan fun items =>
        callNodePlan name distinct items _)).of_eq
    fun c _ => call_eq c quoted

def caseBranchesPlan : Inner fun c => iterate (caseBranch c) [] :=
  have hbranch : ∀ parts : List NodeId, Inner fun c => (do
      let condition ← c.expression
      expect (.word .THEN)
      let result ← c.expression
      return some (parts ++ [condition, result])) :=
    fun _ => .bind .expression fun _ => .bind (.expect _) fun _ => .bind .expression fun _ => .done _
  .iterate (fun parts => .bind (.eat _) fun _ => .choose (hbranch parts) (.done none))
    (fun _ hc => Planned.advancing_behind fun parts => (hbranch parts).size_le hc) []

def caseExpressionPlan : Inner caseExpression :=
  (Planned.bind (.expect _) fun _ => .bind (.pushTag _) fun _ =>
    .bind (.bind (.at? _) fun _ => .choose (.done []) (.bind .expression fun _ => .done _)) fun _ =>
      .bind (.at? _) fun _ => .bind (.require _ _) fun _ => .bind caseBranchesPlan fun _ =>
        .bind (.behind _ (.bind .expression fun _ => .bind (.tagged _ _) fun _ => .done _)) fun _ =>
          .bind (.expect _) fun _ => .pushList _).of_eq fun c _ => caseExpression_eq c

def castPlan : Inner cast :=
  .bind (.expect _) fun _ => .bind (.expect _) fun _ => .bind .expression fun _ =>
    .bind (.expect _) fun _ => .bind typeNamePlan fun _ => .bind (.expect _) fun _ => .tagged _ _

def existsQueryPlan : Inner existsQuery :=
  .bind .advance fun _ => .bind .parenthesizedQuery fun _ => .tagged _ _

def parenthesizedPlan : Inner parenthesized :=
  (Planned.bind .advance fun _ =>
    .bind (.bind .atQuery fun _ => .choose (.bind .query fun _ => .tagged _ _) .expression) fun inner =>
      .bind (.expect _) fun _ => .done inner).of_eq fun c _ => parenthesized_eq c

def parameterPlan (named : Bool) (span : Span) : Inner fun _ => parameter named span :=
  .bind .advance fun _ => .choose (.bind (.push _) fun _ => .tagged _ _) (.tagged _ _)

/-- The integer `2 ^ 63` is refused at the token that was looked at. -/
def leastMagnitudePlan (t : Token) :
    PlannedAt .statement Context.Steady t fun c => leastMagnitude c.policy t :=
  .policy (f := fun _ policy => leastMagnitude policy t) fun policy =>
    match policy with
    | .promote => .of_planned (.pushAtom (.float Binary64.twoPow63))
    | .reject => .fail (fun t => .lexical (.integerRange t.text.toList) t) fun _ => rfl

def primaryPlan : Inner primary := by
  refine .front fun t => ?_
  cases t.kind with
  | leastMagnitude => exact leastMagnitudePlan t
  | identifier quoted =>
    exact .of_planned (.bind (.peek 1) fun _ => .choose (callPlan quoted) qualifiedNamePlan)
  | parameter named => exact .of_planned (parameterPlan named _)
  | symbol s =>
    cases s with
    | leftParen => exact .of_planned parenthesizedPlan
    | _ => exact .of_planned (.unexpected _)
  | word w =>
    cases w with
    | CASE => exact .of_planned caseExpressionPlan
    | CAST => exact .of_planned castPlan
    | EXISTS => exact .of_planned existsQueryPlan
    | NULL | TRUE | FALSE | CURRENT_DATE | CURRENT_TIME | CURRENT_TIMESTAMP =>
      exact .of_planned (.pushAtom _)
    | _ => exact .of_planned (.unexpected _)
  | endOfInput | problem _ => exact .of_planned (.unexpected _)
  | _ => exact .of_planned (.pushAtom _)

def operandPlan : Inner operand := by
  refine .bind .current fun t => .bind (.peek 1) fun _ => .choose
    (.bind .advance fun _ => .pushAtom _) ?_
  split
  · exact .bind .advance fun _ => .bind (.enter _) fun _ => .tagged _ _
  · exact primaryPlan

def negatedNodePlan (negated : Bool) (node : NodeId) : Inner fun _ => negatedNode negated node :=
  .choose (.tagged _ _) (.done node)

def isSamePlan (left : NodeId) (power : Nat) : Inner fun c => isSame c left power :=
  (Planned.bind (.expect _) fun _ => .bind (.eat _) fun negated => .bind (.enter _) fun _ =>
    .bind (.tagged _ _) fun _ => negatedNodePlan negated _).of_eq fun c _ => isSame_eq c left power

def inListPlan (left : NodeId) : Inner fun c => inList c left :=
  .bind (.expect _) fun _ => .bind (.expect _) fun _ => .bind .atQuery fun _ => .choose
    (.bind .query fun _ => .bind (.expect _) fun _ => .tagged _ _)
    (.bind argumentsPlan fun _ => .bind (.pushList _) fun _ => .tagged _ _)

def betweenPlan (left : NodeId) (power : Nat) : Inner fun c => between c left power :=
  .bind (.expect _) fun _ => .bind (.enter _) fun _ => .bind (.expect _) fun _ =>
    .bind (.enter _) fun _ => .tagged _ _

def likePlan (left : NodeId) (power : Nat) : Inner fun c => like c left power :=
  .bind (.expect _) fun _ => .bind (.enter _) fun _ => .bind (.eat _) fun _ => .choose
    (.bind (.enter _) fun _ => .tagged _ _) (.tagged _ _)

def applicationPlan (left : NodeId) (power : Nat) (operator : BinaryOperator) :
    Inner fun c => application c left power operator :=
  match operator with
  | .isSame => isSamePlan left power
  | .inList => inListPlan left
  | .between => betweenPlan left power
  | .like => likePlan left power
  | .plain _ => .bind .advance fun _ => .bind (.enter _) fun _ => .tagged _ _

def extendPlan (power : Nat) (left : NodeId) : Inner fun c => extend c power left := by
  refine Planned.of_eq (.bind .current fun t => .bind (.peek 1) fun next => ?_)
    fun c _ => extend_eq c power left
  dsimp only
  split
  · exact .done none
  · exact .choose (.done none) (.bind (.choose .advance (.done ())) fun _ =>
      .bind (applicationPlan _ _ _) fun _ => .bind (negatedNodePlan _ _) fun _ => .done _)

theorem advancing_extend {c : Context} (hc : c.Steady) (power : Nat) :
    Advancing (extend c power) :=
  advancing_of_follows fun _ _ =>
    (Lockstep.follows_extend (hc.contexts _) rfl).mono (Nat.le_succ _)

def expressionPlan (power : Nat) : Inner fun c => Expression.expression c power :=
  .bind operandPlan fun first => .iterate (extendPlan power)
    (fun _ hc => advancing_extend hc power) first

end Expression

/-! ### Queries -/

namespace Query

def tableNamePlan : Inner fun _ => tableName :=
  .bind .identifier fun first => .bind (.eat _) fun _ => .choose
    (.bind .identifier fun _ => .pushList _) (.done first)

def aliasPlan : Inner fun _ => alias? :=
  .bind (.eat _) fun _ => .choose (.bind .identifier fun _ => .done _) (.bind .current fun _ =>
    .choose (.bind .identifier fun _ => .done _) (.done none))

def withAliasPlan (node : NodeId) : Inner fun _ => withAlias node := by
  refine .bind aliasPlan fun name => ?_
  cases name with
  | some _ => exact .tagged _ _
  | none => exact .done node

def columnNamesPlan : Inner fun _ => columnNames :=
  .bind (.expect _) fun _ => .bind (.pushTag _) fun _ => .bind .identifiers fun _ =>
    .bind (.expect _) fun _ => .pushList _

def optionalColumnNamesPlan : Inner fun _ => optionalColumnNames :=
  .bind (.at? _) fun _ => .choose (.bind columnNamesPlan fun _ => .done _) (.done [])

def markPlan (w : Word) (t : Tag) : Inner fun _ => mark w t :=
  .behind _ (.bind (.pushTag t) fun _ => .done _)

def conditionPlan (w : Word) (t : Tag) : Inner (condition w t) :=
  .behind _ (.bind .expression fun _ => .bind (.tagged _ _) fun _ => .done _)

def joinOperatorPlan : Inner fun _ => joinOperator? := by
  refine .bind .currentWord? fun w => ?_
  split
  · exact .bind (.expect _) fun _ => .done _
  · exact .bind .advance fun _ => .bind (.expect _) fun _ => .done _
  · exact .bind .advance fun _ => .bind (.expect _) fun _ => .done _
  · exact .bind .advance fun _ => .bind (.eat _) fun _ => .bind (.expect _) fun _ => .done _
  · exact .done none

def tableReferencePlan : Inner tableReference :=
  (Planned.bind (.bind (.eat _) fun _ => .choose
    (.bind (.enter _) fun inner => .bind (.expect _) fun _ => .done inner) tableNamePlan)
    withAliasPlan).of_eq fun c _ => tableReference_eq c

def extendJoinPlan (left : NodeId) : Inner fun c => extendJoin c left := by
  refine .bind joinOperatorPlan fun kind => ?_
  cases kind with
  | none => exact .done none
  | some kind =>
    exact .bind tableReferencePlan fun _ => .bind (.pushTag _) fun _ => .bind (.pushTag _) fun _ =>
      .bind (conditionPlan _ _) fun _ => .bind (.pushList _) fun _ => .done _

theorem advancing_extendJoin {c : Context} (hc : c.Steady) : Advancing (extendJoin c) :=
  advancing_of_follows fun _ _ => Lockstep.follows_extendJoin (hc.contexts _) rfl

def joinSourcePlan : Inner joinSource :=
  .bind tableReferencePlan fun first =>
    .iterate extendJoinPlan (fun _ hc => advancing_extendJoin hc) first

def tableSourcePlan : Inner tableSource :=
  .bind .atQuery fun _ => .choose .query joinSourcePlan

def resultColumnPlan : Inner resultColumn :=
  .bind (.eat _) fun _ => .choose (.pushTag _) (.bind .current fun _ => .bind (.peek 1) fun _ =>
    .bind (.peek 2) fun _ => .choose
      (.bind .identifier fun _ => .bind .advance fun _ => .bind .advance fun _ =>
        .bind (.pushTag _) fun _ => .pushList _)
      (.bind .expression fun column => withAliasPlan column))

def rowMarkPlan : Inner fun _ => rowMark :=
  .bind (.eat _) fun _ => .choose (.bind (.pushTag _) fun _ => .done _) (markPlan _ _)

def fromClausePlan : Inner fromClause :=
  .behind _ (.bind (.pushTag _) fun _ => .bind (.commaSeparated joinSourcePlan) fun _ =>
    .bind (.pushList _) fun _ => .done _)

def groupByClausePlan : Inner groupByClause :=
  .behind _ (.bind (.expect _) fun _ => .bind (.pushTag _) fun _ => .bind .expressions fun _ =>
    .bind (.pushList _) fun _ => .done _)

def valueRowPlan : Inner valueRow :=
  .bind (.expect _) fun _ => .bind .expressions fun _ => .bind (.expect _) fun _ => .pushList _

def valuesPartsPlan : Inner valuesParts :=
  .bind (.expect _) fun _ => .bind (.pushTag _) fun _ =>
    .bind (.commaSeparated valueRowPlan) fun _ => .done _

def selectPartsPlan : Inner selectParts :=
  .bind (.expect _) fun _ => .bind (.pushTag _) fun _ => .bind rowMarkPlan fun _ =>
    .bind (.commaSeparated resultColumnPlan) fun _ => .bind (.pushList _) fun _ =>
      .bind fromClausePlan fun _ => .bind (conditionPlan _ _) fun _ =>
        .bind groupByClausePlan fun _ => .bind (conditionPlan _ _) fun _ => .done _

def corePartsPlan : Inner coreParts :=
  .bind (.at? _) fun _ => .choose valuesPartsPlan selectPartsPlan

def setOperatorPlan : Inner fun _ => setOperator? := by
  refine .bind .currentWord? fun w => ?_
  split
  · exact .bind .advance fun _ => .bind (.eat _) fun _ => .choose (.done _) (.done _)
  · exact .bind .advance fun _ => .done _
  · exact .bind .advance fun _ => .done _
  · exact .done none

def extendChainPlan (parts : List NodeId) : Inner fun c => extendChain c parts := by
  refine .bind setOperatorPlan fun operator => ?_
  cases operator with
  | none => exact .done none
  | some operator =>
    exact .bind (.pushList _) fun _ => .bind corePartsPlan fun _ => .bind (.pushList _) fun _ =>
      .bind (.pushTag _) fun _ => .done _

theorem advancing_extendChain {c : Context} (hc : c.Steady) : Advancing (extendChain c) :=
  advancing_of_follows fun _ _ =>
    (Lockstep.follows_extendChain (hc.contexts _) (List.forall₂_same.2 fun _ _ => rfl)).mono (Nat.le_succ _)

def orderingTermPlan : Inner orderingTerm := by
  refine .bind .expression fun key => .bind .currentWord? fun w => ?_
  split
  · exact .bind .advance fun _ => .tagged _ _
  · exact .bind .advance fun _ => .tagged _ _
  · exact .done key

def orderByClausePlan : Inner orderByClause :=
  .behind _ (.bind (.expect _) fun _ => .bind (.pushTag _) fun _ =>
    .bind (.commaSeparated orderingTermPlan) fun _ => .bind (.pushList _) fun _ => .done _)

def limitClausePlan : Inner limitClause :=
  .behind _ (.bind .expression fun _ => .bind (.eat _) fun _ => .choose
    (.bind .expression fun _ => .bind (.tagged _ _) fun _ => .bind (.tagged _ _) fun _ => .done _)
    (.bind (.eat _) fun _ => .choose
      (.bind .expression fun _ => .bind (.tagged _ _) fun _ => .bind (.tagged _ _) fun _ => .done _)
      (.bind (.tagged _ _) fun _ => .done _)))

def chainPlan : Inner chain :=
  .bind corePartsPlan fun first =>
    .bind (.iterate extendChainPlan (fun _ hc => advancing_extendChain hc) first) fun _ =>
      .bind orderByClausePlan fun _ => .bind limitClausePlan fun _ => .pushList _

def namedQueryPlan : Inner namedQuery :=
  .bind .identifier fun _ => .bind optionalColumnNamesPlan fun _ => .bind (.expect _) fun _ =>
    .bind .parenthesizedQuery fun _ => .pushList _

def withQueryPlan : Inner withQuery :=
  (Planned.bind (.expect _) fun _ => .bind (.pushTag _) fun _ => .bind (markPlan _ _) fun _ =>
    .bind (.commaSeparated namedQueryPlan) fun _ => .bind (.pushList _) fun _ =>
      .bind chainPlan fun _ => .pushList _).of_eq fun c _ => withQuery_eq c

def queryPlan : Inner Query.query := .bind (.at? _) fun _ => .choose withQueryPlan chainPlan

end Query

/-! ### Statements -/

namespace Statement

open Query

def insertPlan : Inner insert :=
  .bind (.expect _) fun _ => .bind (.expect _) fun _ => .bind (.pushTag _) fun _ =>
    .bind tableNamePlan fun _ => .bind optionalColumnNamesPlan fun _ =>
      .bind .requiredQuery fun _ => .pushList _

def assignmentPlan : Inner assignment :=
  .bind .identifier fun _ => .bind (.expect _) fun _ => .bind .expression fun _ => .tagged _ _

def updatePlan : Inner update :=
  .bind (.expect _) fun _ => .bind (.pushTag _) fun _ => .bind tableNamePlan fun table =>
    .bind (withAliasPlan table) fun _ => .bind (.expect _) fun _ =>
      .bind (.commaSeparated assignmentPlan) fun _ => .bind (.pushList _) fun _ =>
        .bind (conditionPlan _ _) fun _ => .pushList _

def deletePlan : Inner delete :=
  .bind (.expect _) fun _ => .bind (.expect _) fun _ => .bind (.pushTag _) fun _ =>
    .bind tableNamePlan fun table => .bind (withAliasPlan table) fun _ =>
      .bind (conditionPlan _ _) fun _ => .pushList _

def columnConstraintPlan : Inner columnConstraint? := by
  refine .bind .currentWord? fun w => ?_
  split
  · exact .bind .advance fun _ => .bind (.expect _) fun _ => .bind (.pushTag _) fun _ => .done _
  · exact .bind .advance fun _ => .bind (.pushTag _) fun _ => .done _
  · exact .bind .advance fun _ => .bind (.pushTag _) fun _ => .done _
  · exact .bind .advance fun _ => .bind (.expect _) fun _ => .bind (.pushTag _) fun _ =>
      .bind (.tagged _ _) fun _ => .done _
  · exact .bind .advance fun _ => .bind .expression fun _ => .bind (.tagged _ _) fun _ => .done _
  · exact .done none

def extendColumnPlan (parts : List NodeId) : Inner fun c => extendColumn c parts := by
  refine .bind columnConstraintPlan fun constraint => ?_
  cases constraint with
  | some _ => exact .done _
  | none => exact .done none

theorem advancing_extendColumn {c : Context} (hc : c.Steady) : Advancing (extendColumn c) :=
  advancing_of_follows fun _ _ =>
    Lockstep.follows_extendColumn (hc.contexts _) (List.forall₂_same.2 fun _ _ => rfl)

def columnDefinitionPlan : Inner columnDefinition :=
  (Planned.bind .identifier fun _ =>
    .bind (.bind .atPlainIdentifier fun _ =>
      .choose (.bind Expression.typeNamePlan fun _ => .done _) (.done [])) fun _ =>
        .bind (.iterate extendColumnPlan (fun _ hc => advancing_extendColumn hc) _) fun _ =>
          .pushList _).of_eq fun c _ => columnDefinition_eq c

def constraintTagPlan : Inner fun _ => constraintTag :=
  .bind (.eat _) fun _ => .choose (.bind (.expect _) fun _ => .done _)
    (.bind (.expect _) fun _ => .done _)

def tableConstraintPlan : Inner fun _ => tableConstraint :=
  (Planned.bind constraintTagPlan fun _ => .bind (.pushTag _) fun _ => .bind (.expect _) fun _ =>
    .bind .identifiers fun _ => .bind (.expect _) fun _ => .pushList _).of_eq
      fun _ _ => tableConstraint_eq

def tableElementPlan : Inner tableElement := by
  refine .bind .currentWord? fun w => ?_
  split
  · exact tableConstraintPlan
  · exact tableConstraintPlan
  · exact columnDefinitionPlan

def createTablePlan : Inner createTable :=
  .bind (.expect _) fun _ => .bind (.pushTag _) fun _ => .bind tableNamePlan fun _ =>
    .bind (.expect _) fun _ => .bind (.commaSeparated tableElementPlan) fun _ =>
      .bind (.expect _) fun _ => .bind (.pushList _) fun _ => .pushList _

def createIndexPlan : Inner createIndex :=
  (Planned.bind (.pushTag _) fun _ => .bind (markPlan _ _) fun _ => .bind (.expect _) fun _ =>
    .bind tableNamePlan fun _ => .bind (.expect _) fun _ => .bind tableNamePlan fun _ =>
      .bind (.expect _) fun _ => .bind (.commaSeparated orderingTermPlan) fun _ =>
        .bind (.expect _) fun _ => .bind (.pushList _) fun _ => .pushList _).of_eq
          fun c _ => createIndex_eq c

def createViewPlan : Inner createView :=
  .bind (.expect _) fun _ => .bind (.pushTag _) fun _ => .bind tableNamePlan fun _ =>
    .bind optionalColumnNamesPlan fun _ => .bind (.expect _) fun _ =>
      .bind .requiredQuery fun _ => .pushList _

def createPlan : Inner create := by
  refine .bind (.expect _) fun _ => .bind .currentWord? fun w => ?_
  split
  · exact createTablePlan
  · exact createIndexPlan
  · exact createIndexPlan
  · exact createViewPlan
  · exact .unexpected _

def existsMarkPlan : Inner fun _ => existsMark :=
  .behind _ (.bind (.expect _) fun _ => .bind (.pushTag _) fun _ => .done _)

def dropPlan : Inner fun _ => drop := by
  refine Planned.of_eq (.bind (.expect _) fun _ => .bind .currentWord? fun w => ?_) fun _ _ => drop_eq
  split
  · exact .unexpected _
  · exact .bind .advance fun _ => .bind (.pushTag _) fun _ => .bind existsMarkPlan fun _ =>
      .bind tableNamePlan fun _ => .pushList _

/-- The plan behind an entry. -/
def bodyPlan (entry : Entry) : Inner fun c => body c entry :=
  match entry with
  | .expression power => Expression.expressionPlan power
  | .query => queryPlan
  | .tableSource => tableSourcePlan

def statementPlan : Inner statement := by
  refine .bind .currentWord? fun w => ?_
  split
  · exact .query
  · exact .query
  · exact .query
  · exact insertPlan
  · exact updatePlan
  · exact deletePlan
  · exact createPlan
  · exact dropPlan
  · exact .unexpected _

/-! ### Real contexts -/

/-- The surroundings of a rule with room for a number of levels. -/
abbrev roomContext (settings : Settings) (room : Nat) : Context :=
  ⟨settings.overflow, enter settings room⟩

/-- However much room is left, the rules give no tokens back. -/
theorem steady_roomContext (settings : Settings) (room : Nat) :
    (roomContext settings room).Steady := by
  induction room with
  | zero => exact ⟨fun _ _ => Nat.le_refl _, fun _ _ _ h => nomatch h⟩
  | succ room ih =>
    refine ⟨fun entry => (bodyPlan entry).size_le ih, fun s id s' hquery => ?_⟩
    have hagrees := Lockstep.follows_query (ih.contexts s.stream.size) s s ⟨⟨rfl, trivial⟩, rfl⟩
      trivial (Nat.lt_succ_self _)
    change Query.query (roomContext settings room) s = _ at hquery
    rw [hquery] at hagrees
    cases hagrees with
    | ok j _ _ htaken hleft _ =>
      have := htaken rfl
      omega

theorem steady_context (settings : Settings) : (context settings).Steady :=
  steady_roomContext settings settings.maxDepth

/-! ### Sources -/

variable (settings : Settings) (source : String)

def treePlan : Outer settings (tree settings source) :=
  (Planned.bind .statement fun root => .bind .harvest fun arena =>
    .done (⟨source, arena, root⟩ : Tree)).of_eq fun _ hc => hc ▸ rfl

def singlePlan : Outer settings (single settings source) :=
  .bind .checkSpelling fun _ => .bind (treePlan settings source) fun result =>
    .bind (.eat _) fun _ => .bind .atEnd fun _ =>
      .choose (.done result) (.bind (.unexpected _) fun _ => .done result)

def skipSemicolonsPlan : Outer settings skipSemicolons :=
  .iterate (fun _ => .bind (.eat _) fun _ => .choose (.done _) (.done none))
    (fun _ _ => Planned.advancing_behind fun _ _ => Nat.le_refl _) ()

def extendScriptPlan (trees : List Tree) : Outer settings (extendScript settings source trees) :=
  .bind (skipSemicolonsPlan settings) fun _ => .bind .atEnd fun _ => .choose (.done none)
    (.bind (treePlan settings source) fun _ => .bind .atEnd fun _ =>
      .choose (.done _) (.bind (.expect _) fun _ => .done _))

def scriptPlan : Outer settings (script settings source) :=
  .bind .checkSpelling fun _ =>
    .bind (.iterate (extendScriptPlan settings source)
      (fun _ _ _ _ _ _ => size_lt_of_extendScript) []) fun _ =>
        .choose (.unexpected _) (.done _)

end Statement

/-- No plan gives tokens back. -/
theorem Plan.size_le {l : Layer} {α : Type} {c : Context} (hc : c.Steady) {p : Plan l α}
    (hp : p.Advances c) (s : ParseState) : (Rule.after (p.run c) s).stream.size ≤ s.stream.size :=
  (closed_size_le hc fun _ => Statement.statementPlan.size_le hc).run p hp s

end TaggedSql
