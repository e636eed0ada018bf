import TaggedSql.Proofs.Expression.Call

/-!
# Printed expressions are read back

An expression printed with the fewest parentheses is read back as its own tree. A step of the loop
over operators is enough for each operator: what stands before it has been read, what stands behind
it is read on a level of its own, and no operator that follows belongs to it.

* `takes_extend`: one operator and what follows it extend an expression;
* `Expr.reads`: every expression is read back as far as its own operators go.
-/

namespace TaggedSql

open Piece Rule Expression Arena Statement
open TaggedSql.Expr (piecesOfAll dataOfAll depthOfAll piecesOfSome datumOfSome depthOfSome guardedDepth)

variable {source : String} {settings : Settings} {room position power own : Nat}
  {ps qs rest : List Piece} {c : Context} {e left right : Expr} {d : Datum}

/-! ### Prefix operators -/

theorem Kind.power_of_unary? {k : Kind} {tag : Tag} (h : k.unary? = some (tag, power)) :
    power = 5 ∨ power = 17 := by
  unfold Kind.unary? at h
  split at h <;> cases h <;> decide

theorem Expr.reads_prefixed (operator : PrefixOperator) (h : e.Reads) :
    (Expr.prefixed operator e).Reads := by
  intro source settings room power rest hdepth _ hrest
  have hposition : operator.power ∉ [1, 3, 7, 9, 11, 13, 15] := by
    rcases Kind.power_of_unary? operator.unary with h | h <;> (rw [h]; decide)
  refine Takes.leads ?_
  rw [operand, Expr.pieces]
  refine Leads.currentPiece fun t hkind _ _ => ?_
  refine Leads.peek fun following hfollowing => ?_
  have hmagnitude : following.kind ≠ .leastMagnitude := by
    intro heq
    have hstart := startsExpression_guarded operator.power e.level e.startsExpression rest
    rw [List.cons_append, kindAt_succ_cons] at hfollowing
    rw [← hfollowing, heq] at hstart
    cases hstart
  rw [if_neg (by simp [hmagnitude]), hkind, kind_terminal, operator.unary]
  refine Leads.advance ?_
  show Leads source _ _ (e.piecesAt operator.power) rest _ _
  rw [← List.append_nil (e.piecesAt _)]
  refine Takes.seq (h.enter hposition hdepth hrest) fun inner => ?_
  exact Takes.tagged fun A hA => hA.2.single

/-! ### Steps of the loop over operators -/

/-- The negation of a node shows the negated datum. -/
theorem takes_negatedNode (negated : Bool) (node : NodeId) :
    Takes source (fun A => Shows source A node d) (negatedNode negated node) [] rest
      fun id A => Shows source A id (.negated negated d) := by
  rw [negatedNode]
  cases negated with
  | false => exact Takes.done fun A hA => hA
  | true => exact Takes.tagged fun A hA => hA.single

/-- One operator and what follows it extend an expression. -/
theorem takes_extend {operator : BinaryOperator} {negated : Bool} {left : NodeId} {dl : Datum}
    (hfound : infix? (negation negated ++ qs ++ rest) = some (operator, own))
    (hnegated : isNegated (negation negated ++ qs ++ rest) = negated) (hpower : power ≤ own)
    (happly : Takes source (fun A => Shows source A left dl) (application c left (own + 1) operator)
      qs rest fun id A => Shows source A id d) :
    Takes source (fun A => Shows source A left dl) (extend c power left) (negation negated ++ qs)
      rest fun o A => ∃ id, o = some id ∧ Shows source A id (.negated negated d) := by
  rw [extend_eq]
  refine Leads.current fun t ht => ?_
  refine Leads.peek fun following hfollowing => ?_
  have hnot : (t.kind == .word .NOT && following.kind.isNegatable) = negated := by
    rw [ht, hfollowing]
    exact hnegated
  have hoperator : (if negated then following.kind else t.kind).binary? = some (operator, own) := by
    rw [ht, hfollowing]
    rw [infix?, hnegated] at hfound
    exact hfound
  dsimp only
  rw [hnot, hoperator]
  show Leads source _ (if own < power then _ else _) _ rest _ _
  rw [if_neg (Nat.not_lt.2 hpower)]
  refine Takes.seqEq (v := ()) ?_ ?_
  · rw [passNot]
    cases negated with
    | false => exact Takes.done fun _ _ => rfl
    | true =>
      refine Takes.of_bind_pure (Leads.advance ?_)
      exact Takes.done fun _ _ => rfl
  · rw [← List.append_nil qs]
    refine Takes.bind happly fun predicate => ?_
    refine Takes.bindPass ((takes_negatedNode negated predicate).weaken fun A hA => hA.2)
      fun id => ?_
    exact Takes.done fun A hA => ⟨id, rfl, hA.2⟩

/-- An expression whose outermost operator is binary is read back if its operands are. -/
theorem Expr.reads_of_binary {operator : BinaryOperator} (negated : Bool) (hleft : left.Reads)
    (hpieces : e.pieces = left.piecesAt own ++ (negation negated ++ qs))
    (hdatum : e.datum = .negated negated d) (hlevel : e.level = own)
    (hdepth : guardedDepth own left.level left.depth ≤ e.depth)
    (hfront : ∀ rest, infix? (negation negated ++ qs ++ rest) = some (operator, own) ∧
      isNegated (negation negated ++ qs ++ rest) = negated)
    (happly : ∀ (source : String) (settings : Settings) (room : Nat) (rest : List Piece)
      (id : NodeId), e.depth ≤ room → weight rest ≤ own →
      Takes source (fun A => Shows source A id left.datum)
        (application (contextOf settings room) id (own + 1) operator) qs rest
        fun id A => Shows source A id d) : e.Reads := by
  intro source settings room power rest hroom hpower hrest
  rw [hlevel] at hpower hrest
  obtain ⟨hfound, hnegated⟩ := hfront rest
  have hne : negation negated ++ qs ≠ [] := by
    intro hnil
    have := (hfront []).1
    rw [hnil] at this
    cases this
  rw [hpieces, hdatum]
  refine Leads.extend (hleft.guarded (Nat.le_trans hdepth hroom) hpower ?_) (fun id => ?_) hne
  · exact Nat.le_of_eq (power_eq_weight hfound).symm
  · exact takes_extend hfound hnegated hpower (happly source settings room rest id hroom hrest)

/-! ### Binary operators -/

/-- Nothing that is itself an operator is taken for a negation. -/
theorem isNegated_of_binary? (h : (kindAt 0 ps).binary? = some o) : isNegated ps = false := by
  rw [isNegated, Bool.and_eq_false_imp, beq_iff_eq]
  intro hnot
  rw [hnot] at h
  cases h

theorem infix?_of_binary? (h : (kindAt 0 ps).binary? = some o) : infix? ps = some o := by
  rw [infix?, isNegated_of_binary? h, if_neg Bool.false_ne_true, h]

/-- The front of a predicate, with or without a negation. -/
theorem front_of_negatable {t : Terminal} {operator : BinaryOperator} (negated : Bool)
    (h : t.kind.binary? = some (operator, own))
    (hnegatable : negated = true → t.kind.isNegatable = true) (rest : List Piece) :
    infix? (negation negated ++ terminal t :: ps ++ rest) = some (operator, own) ∧
      isNegated (negation negated ++ terminal t :: ps ++ rest) = negated := by
  cases negated with
  | false =>
    have hkind : (kindAt 0 (terminal t :: (ps ++ rest))).binary? = some (operator, own) := by
      rw [kindAt_zero_cons, kind_terminal, h]
    exact ⟨infix?_of_binary? hkind, isNegated_of_binary? hkind⟩
  | true =>
    have hnegated : isNegated (word .NOT :: terminal t :: (ps ++ rest)) = true := by
      rw [isNegated, kindAt_zero_cons, kind_word, kindAt_succ_cons, kindAt_zero_cons, kind_terminal,
        hnegatable rfl]
      rfl
    refine ⟨?_, hnegated⟩
    show infix? (word .NOT :: terminal t :: (ps ++ rest)) = _
    rw [infix?, hnegated, if_pos rfl, kindAt_succ_cons, kindAt_zero_cons, kind_terminal, h]

/-- A position behind a binary operator is the power of none. -/
theorem succ_power_notMem {k : Kind} {operator : BinaryOperator}
    (h : k.binary? = some (operator, own)) : own + 1 ∉ [1, 3, 7, 9, 11, 13, 15] := by
  have hown := Kind.power_mem_of_binary? h
  simp only [List.mem_cons, List.not_mem_nil, or_false] at hown ⊢
  omega

theorem Expr.reads_infixed (operator : InfixOperator) (hleft : left.Reads) (hright : right.Reads) :
    (Expr.infixed operator left right).Reads := by
  have hpieces : (Expr.infixed operator left right).pieces = left.piecesAt operator.power ++
      (negation operator.negated ++ (terminal operator.symbol :: right.piecesAt (operator.power + 1))) := by
    rw [Expr.pieces, InfixOperator.pieces, List.append_assoc]
    rfl
  refine reads_of_binary operator.negated hleft hpieces rfl rfl (Nat.le_max_left _ _)
    (front_of_negatable _ operator.binary operator.negatable)
    fun source settings room rest id hroom hrest => ?_
  have hdepth : guardedDepth (operator.power + 1) right.level right.depth < room :=
    Nat.lt_of_lt_of_le (Nat.lt_of_lt_of_le (Nat.lt_succ_self _) (Nat.le_max_right _ _)) hroom
  refine Leads.advance ?_
  rw [← List.append_nil (right.piecesAt _)]
  refine Takes.seq (hright.enter (succ_power_notMem operator.binary) hdepth (by simp; omega))
    fun rightId => ?_
  exact Takes.tagged fun A hA => showsAll_cons.2 ⟨hA.1, hA.2.single⟩

/-! ### Predicates -/

theorem kindAt_guarded_ne_not {level : Nat}
    (h : position ≤ level → ∀ rest, kindAt 0 (ps ++ rest) ≠ .word .NOT) (rest : List Piece) :
    kindAt 0 (guarded position level ps ++ rest) ≠ .word .NOT := by
  rw [guarded]
  split
  next => simp
  next hlevel => exact h (Nat.le_of_not_lt hlevel) rest

/-- An expression that binds tighter than `NOT` does not begin with it. -/
theorem Expr.kindAt_ne_not : (e : Expr) → 6 ≤ e.level → (rest : List Piece) →
    kindAt 0 (e.pieces ++ rest) ≠ .word .NOT
  | .integer _, _, _ | .float _, _, _ | .string _, _, _ | .blob _, _, _ | .parameter none, _, _
  | .parameter (some _), _, _ => nofun
  | .name first more, _, rest => by simp [Expr.pieces, separated]
  | .constant k, _, rest => by
    have hconstant := k.constant
    intro h
    rw [Expr.pieces, List.singleton_append, kindAt_zero_cons, kind_word] at h
    rw [h] at hconstant
    cases hconstant
  | .prefixed operator e, hlevel, rest => by
    have hunary := operator.unary
    intro h
    rw [Expr.pieces, List.cons_append, kindAt_zero_cons, kind_terminal] at h
    rw [h] at hunary
    have hpower : 5 = operator.power := congrArg Prod.snd (Option.some.inj hunary)
    have : 6 ≤ operator.power := hlevel
    omega
  | .infixed operator left _, hlevel, rest => by
    rw [Expr.pieces, List.append_assoc]
    exact kindAt_guarded_ne_not (fun h => left.kindAt_ne_not (Nat.le_trans hlevel h)) _
  | .isSame _ left _, _, rest => by
    rw [Expr.pieces, List.append_assoc]
    exact kindAt_guarded_ne_not (fun h => left.kindAt_ne_not (by omega)) _
  | .inList _ left _, _, rest => by
    rw [Expr.pieces, List.append_assoc]
    exact kindAt_guarded_ne_not (fun h => left.kindAt_ne_not (by omega)) _
  | .between _ left _ _, _, rest => by
    rw [Expr.pieces, List.append_assoc]
    exact kindAt_guarded_ne_not (fun h => left.kindAt_ne_not (by omega)) _
  | .like _ left _ _, _, rest => by
    rw [Expr.pieces, List.append_assoc]
    exact kindAt_guarded_ne_not (fun h => left.kindAt_ne_not (by omega)) _
  | .caseOf _ _, _, rest | .cast _ _, _, rest => by simp [Expr.pieces]
  | .function callee _ _, _, rest | .extremum callee _ _ _ _ _, _, rest => by
    simp [Expr.pieces, Piece.call]
  | .aggregate callee _ _ _ _, _, rest | .columnExtremum callee _ _ _ _, _, rest => by
    simp [Expr.pieces, Piece.call]
  | .countRows callee _ _, _, rest => by simp [Expr.pieces]

theorem Expr.reads_isSame (negated : Bool) (hleft : left.Reads) (hright : right.Reads) :
    (Expr.isSame negated left right).Reads := by
  -- The negation of this predicate stands behind its word, so that it is a part of what follows.
  refine reads_of_binary false hleft rfl rfl rfl (Nat.le_max_left _ _)
    (front_of_negatable (t := .word .IS) false rfl (fun h => nomatch h))
    fun source settings room rest id hroom hrest => ?_
  have hdepth : guardedDepth 8 right.level right.depth < room :=
    Nat.lt_of_lt_of_le (Nat.lt_of_lt_of_le (Nat.lt_succ_self _) (Nat.le_max_right _ _)) hroom
  show Takes source _ (Expression.isSame _ id 8) _ rest _
  rw [isSame_eq]
  refine Leads.expect (t := .word .IS) ?_
  refine Takes.seqEq (v := negated) ?_ ?_
  · cases negated with
    | false =>
      refine Takes.of_bind_pure (Leads.skip ?_ (Takes.done fun _ _ => rfl))
      exact kindAt_guarded_ne_not (fun h => right.kindAt_ne_not (by omega)) rest
    | true =>
      exact Takes.of_bind_pure (Leads.eat (t := .word .NOT) (Takes.done fun _ _ => rfl))
  show Leads source _ _ (right.piecesAt 8) rest _ _
  rw [← List.append_nil (right.piecesAt 8)]
  refine Takes.seq (hright.enter (by decide) hdepth (by rw [List.nil_append]; omega))
    fun rightId => ?_
  refine Leads.tagged (fun A hA => showsAll_cons.2 ⟨hA.1, hA.2.single⟩) fun comparison => ?_
  exact (takes_negatedNode negated comparison).weaken fun A hA => hA.2

theorem Expr.reads_inList (negated : Bool) (hleft : left.Reads) (items : List Expr)
    (hitems : ∀ e ∈ items, e.Reads) : (Expr.inList negated left items).Reads := by
  refine reads_of_binary negated hleft rfl rfl rfl (Nat.le_max_left _ _)
    (front_of_negatable (t := .word .IN) negated rfl fun _ => rfl)
    fun source settings room rest id hroom hrest => ?_
  show Takes source _ (Expression.inList _ id) _ rest _
  rw [Expression.inList]
  refine Leads.expect (t := .word .IN) ?_
  refine Leads.expect (t := .symbol .leftParen) ?_
  refine Leads.atQuery ?_
  have hquery : (kindAt 0 (commas (piecesOfAll items) ++ [symbol .rightParen] ++ rest)).startsQuery =
      false := by
    cases items with
    | nil => rfl
    | cons e items =>
      rw [piecesOfAll, commas, separated, List.append_assoc, List.append_assoc]
      exact Kind.startsQuery_of_startsExpression (e.startsExpression _)
  rw [hquery, if_neg Bool.false_ne_true, ← List.append_nil (_ ++ [symbol .rightParen])]
  refine Takes.seq (takes_arguments items hitems (Nat.le_trans (Nat.le_max_right _ _) hroom))
    fun ids => ?_
  refine Leads.pushList (fun A hA => hA.2) fun list => ?_
  exact Takes.tagged fun A hA => showsAll_cons.2 ⟨hA.1.1, hA.2.single⟩

theorem Expr.reads_between {low high : Expr} (negated : Bool) (hleft : left.Reads)
    (hlow : low.Reads) (hhigh : high.Reads) : (Expr.between negated left low high).Reads := by
  refine reads_of_binary negated hleft rfl rfl rfl (Nat.le_max_left _ _)
    (front_of_negatable (t := .word .BETWEEN) negated rfl fun _ => rfl)
    fun source settings room rest id hroom hrest => ?_
  have hdepth : guardedDepth 8 low.level low.depth < room ∧
      guardedDepth 8 high.level high.depth < room := by
    rw [Expr.depth] at hroom
    omega
  show Takes source _ (Expression.between _ id 8) _ rest _
  rw [Expression.between]
  refine Leads.expect (t := .word .BETWEEN) ?_
  -- The word between the bounds binds looser than anything that stands in them.
  refine Takes.seq (hlow.enter (by decide) hdepth.1 ?_) fun lowId => ?_
  · rw [← power_eq_weight (infix?_of_binary? (by rw [List.cons_append, kindAt_zero_cons, kind_word]; rfl))]
    decide
  refine Leads.expect (t := .word .AND) ?_
  show Leads source _ _ (high.piecesAt 8) rest _ _
  rw [← List.append_nil (high.piecesAt 8)]
  refine Takes.seq (hhigh.enter (by decide) hdepth.2 (by rw [List.nil_append]; omega))
    fun highId => ?_
  exact Takes.tagged fun A hA => showsAll_cons.2 ⟨hA.1.1, showsAll_cons.2 ⟨hA.1.2, hA.2.single⟩⟩

theorem Expr.reads_like {pattern : Expr} (negated : Bool) (hleft : left.Reads)
    (hpattern : pattern.Reads) (escape : Option Expr) (hescape : ∀ e ∈ escape, e.Reads) :
    (Expr.like negated left pattern escape).Reads := by
  refine reads_of_binary negated hleft rfl rfl rfl (Nat.le_max_left _ _)
    (front_of_negatable (t := .word .LIKE) negated rfl fun _ => rfl)
    fun source settings room rest id hroom hrest => ?_
  have hdepth : guardedDepth 8 pattern.level pattern.depth < room ∧ depthOfSome 8 escape ≤ room := by
    rw [Expr.depth] at hroom
    omega
  show Takes source _ (Expression.like _ id 8) _ rest _
  rw [Expression.like]
  refine Leads.expect (t := .word .LIKE) ?_
  cases escape with
  | none =>
    have hword : kindAt 0 rest ≠ .word .ESCAPE := by
      intro h
      have hweight : weight rest = 8 := by
        simp [weight, infix?, isNegated, tailWeight, h, Kind.binary?]
      omega
    refine Takes.seq (hpattern.enter (by decide) hdepth.1 ?_) fun patternId => ?_
    · show weight rest ≤ 8
      omega
    refine Leads.skip hword ?_
    exact Takes.tagged fun A hA => showsAll_cons.2 ⟨hA.1, hA.2.single⟩
  | some e =>
    refine Takes.seq (hpattern.enter (by decide) hdepth.1 ?_) fun patternId => ?_
    · show weight (word .ESCAPE :: (e.piecesAt 8 ++ rest)) ≤ 8
      simp [weight, infix?, isNegated, tailWeight, Kind.binary?]
    refine Leads.eat (t := .word .ESCAPE) ?_
    show Leads source _ _ (e.piecesAt 8) rest _ _
    rw [if_pos rfl, ← List.append_nil (e.piecesAt 8)]
    refine Takes.seq ((hescape e rfl).enter (by decide) hdepth.2 (by rw [List.nil_append]; omega))
      fun escapeId => ?_
    exact Takes.tagged fun A hA => showsAll_cons.2 ⟨hA.1.1, showsAll_cons.2 ⟨hA.1.2, hA.2.single⟩⟩

/-! ### All expressions -/

mutual

/-- Every expression is read back as far as its own operators go. -/
theorem Expr.reads : (e : Expr) → e.Reads
  | .integer n => Expr.reads_integer n
  | .float l => Expr.reads_float l
  | .string content => Expr.reads_string content
  | .blob b => Expr.reads_blob b
  | .name first more => Expr.reads_name first more
  | .parameter n => Expr.reads_parameter n
  | .constant k => Expr.reads_constant k
  | .prefixed operator e => Expr.reads_prefixed operator e.reads
  | .infixed operator left right => Expr.reads_infixed operator left.reads right.reads
  | .isSame negated left right => Expr.reads_isSame negated left.reads right.reads
  | .inList negated left items => Expr.reads_inList negated left.reads items (Expr.readsAll items)
  | .between negated left low high => Expr.reads_between negated left.reads low.reads high.reads
  | .like negated left pattern escape =>
    Expr.reads_like negated left.reads pattern.reads escape (Expr.readsSome escape)
  | .caseOf operand branches =>
    Expr.reads_caseOf operand branches (Expr.readsSome operand) branches.reads.1 branches.reads.2
  | .cast e type => Expr.reads_cast e.reads type
  | .function callee mark arguments => Expr.reads_function callee mark arguments (Expr.readsAll arguments)
  | .extremum callee h mark first second more =>
    Expr.reads_extremum callee h mark first second more
      (List.forall_mem_cons.2 ⟨first.reads, List.forall_mem_cons.2 ⟨second.reads, Expr.readsAll more⟩⟩)
  | .aggregate callee h mark arguments filter =>
    Expr.reads_aggregate callee h mark arguments filter (Expr.readsAll arguments) (Expr.readsSome filter)
  | .columnExtremum callee h mark argument filter =>
    Expr.reads_columnExtremum callee h mark argument filter (Expr.readsSome argument)
      (Expr.readsSome filter)
  | .countRows callee h filter => Expr.reads_countRows callee h filter (Expr.readsSome filter)

theorem Branches.reads : (b : Branches) →
    (∀ p ∈ b.pairs, p.1.Reads ∧ p.2.Reads) ∧ ∀ e ∈ b.otherwise, e.Reads
  | .last condition result otherwise =>
    ⟨List.forall_mem_singleton.2 ⟨condition.reads, result.reads⟩, Expr.readsSome otherwise⟩
  | .more condition result others =>
    ⟨List.forall_mem_cons.2 ⟨⟨condition.reads, result.reads⟩, others.reads.1⟩, others.reads.2⟩

theorem Expr.readsAll : (es : List Expr) → ∀ e ∈ es, e.Reads
  | [] => fun _ h => nomatch h
  | e :: es => List.forall_mem_cons.2 ⟨e.reads, Expr.readsAll es⟩

theorem Expr.readsSome : (o : Option Expr) → ∀ e ∈ o, e.Reads
  | none => fun _ h => nomatch h
  | some e => fun _ h => Option.some.inj h ▸ e.reads

end

end TaggedSql
