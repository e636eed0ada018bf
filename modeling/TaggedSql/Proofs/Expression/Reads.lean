import TaggedSql.Proofs.Expression.Syntax
import TaggedSql.Proofs.Printing.Reading

/-!
# Where printed expressions end

An expression is read for as long as operators follow that bind tightly enough. The weight of what
follows says how tightly it would bind; nothing that follows a printed expression weighs more than
the expression's own level.

* `Piece.weight`: how tightly the pieces ahead bind what stands before them;
* `Expr.Reads`: an expression is read back as far as its own operators go;
* `Expr.Reads.alone`, `Expr.Reads.guarded`, `Expr.Reads.enter`: then so is the expression on a level
  of its own, and in parentheses where its position requires them.
-/

namespace TaggedSql

open Piece Rule Expression Arena
open TaggedSql.Expr (piecesOfAll dataOfAll depthOfAll guardedDepth piecesOfAll_eq_map dataOfAll_eq_map
  depth_lt_depthOfAll)

/-! ### Weights -/

namespace Piece

/-- Whether a negated predicate follows. -/
def isNegated (ps : List Piece) : Bool := kindAt 0 ps == .word .NOT && (kindAt 1 ps).isNegatable

/-- The binary operator that follows, with its power. -/
def infix? (ps : List Piece) : Option (BinaryOperator × Nat) :=
  (if isNegated ps then kindAt 1 ps else kindAt 0 ps).binary?

/-- How tightly pieces that begin with no operator bind what stands before them: a point or
arguments belong to a name, and an escape to its pattern. -/
def tailWeight (ps : List Piece) : Nat :=
  match kindAt 0 ps with
  | .word .ESCAPE => 8
  | .symbol .dot | .symbol .leftParen => 20
  | .identifier false => if kindAt 1 ps = .symbol .leftParen then 20 else 0
  | _ => 0

/-- How tightly the pieces ahead bind what stands before them. -/
def weight (ps : List Piece) : Nat := (infix? ps).elim (tailWeight ps) Prod.snd

/-- Whether a token binds nothing that stands before it, whatever follows. -/
def isLight (k : Kind) : Bool :=
  k.binary?.isNone && k != .word .NOT && k != .word .ESCAPE && k != .symbol .dot &&
    k != .symbol .leftParen && k != .identifier false

theorem weight_of_isLight {ps : List Piece} (h : isLight (kindAt 0 ps) = true) : weight ps = 0 := by
  simp only [isLight, Bool.and_eq_true, Option.isNone_iff_eq_none, bne_iff_ne] at h
  obtain ⟨⟨⟨⟨⟨hbinary, hnot⟩, hescape⟩, hdot⟩, hparen⟩, hname⟩ := h
  have hnegated : isNegated ps = false := by
    rw [isNegated, beq_false_of_ne hnot, Bool.false_and]
  rw [weight, infix?, hnegated, if_neg Bool.false_ne_true, hbinary, Option.elim_none, tailWeight]
  split
  next h => exact absurd h hescape
  next h => exact absurd h hdot
  next h => exact absurd h hparen
  next h => exact absurd h hname
  next => rfl

theorem power_eq_weight {operator : BinaryOperator} {own : Nat} (h : infix? ps = some (operator, own)) :
    own = weight ps := by rw [weight, h]; rfl

end Piece

/-- The powers of binary operators. -/
theorem Kind.power_mem_of_binary? {k : Kind} {operator : BinaryOperator} {own : Nat}
    (h : k.binary? = some (operator, own)) : own ∈ [1, 3, 7, 9, 11, 13, 15] := by
  unfold Kind.binary? at h
  split at h <;> cases h <;> decide

variable {source : String} {settings : Settings} {room position : Nat} {ps rest : List Piece}
  {c : Context} {e : Expr}

/-- The surroundings of a rule with room for a number of levels. -/
def Statement.contextOf (settings : Settings) (room : Nat) : Context :=
  ⟨settings.overflow, Statement.enter settings room⟩

open Statement

theorem Statement.enter_expression (power : Nat) :
    (contextOf settings (room + 1)).enter (.expression power) =
      expression (contextOf settings room) power := rfl

/-! ### Where expressions end -/

/-- An expression ends where no operator follows that binds tightly enough. -/
theorem takes_extend_none {K : Arena → Prop} {power : Nat} (left : NodeId)
    (h : ∀ operator own, infix? rest = some (operator, own) → own < power) :
    Takes source K (extend c power left) [] rest fun o A => o = none ∧ K A := by
  rw [extend_eq]
  refine Leads.current fun t ht => ?_
  refine Leads.peek fun following hfollowing => ?_
  rw [List.nil_append] at ht hfollowing
  have hoperator : (if t.kind == .word .NOT && following.kind.isNegatable then following.kind
      else t.kind).binary? = infix? rest := by rw [ht, hfollowing]; rfl
  dsimp only
  rw [hoperator]
  split
  next => exact Takes.done fun _ hA => ⟨rfl, hA⟩
  next operator own hfound =>
    rw [if_pos (h operator own hfound)]
    exact Takes.done fun _ hA => ⟨rfl, hA⟩

/-- What follows at a position that no operator has as its power does not extend an expression. -/
theorem power_lt_of_weight_le (hposition : position ∉ [1, 3, 7, 9, 11, 13, 15])
    (hrest : weight rest ≤ position) (operator : BinaryOperator) (own : Nat)
    (h : infix? rest = some (operator, own)) : own < position := by
  have hown := power_eq_weight h
  have hne : own ≠ position := by
    rintro rfl
    exact hposition (Kind.power_mem_of_binary? h)
  omega

/-- With room for its children, an expression is read back as far as its own operators go. -/
def Expr.Reads (e : Expr) : Prop :=
  ∀ (source : String) (settings : Settings) (room power : Nat) (rest : List Piece),
    e.depth ≤ room → power ≤ e.level → weight rest ≤ e.level →
    Leads source (fun _ => True) (expression (contextOf settings room) power) e.pieces rest
      (fun id A => Shows source A id e.datum) (iterate (extend (contextOf settings room) power))

/-- The kinds with which an expression can begin. -/
def Kind.startsExpression : Kind → Bool
  | .integer _ | .float _ | .string | .blob | .identifier _ | .parameter _ => true
  | .word w => w == .CASE || w == .CAST || w == .NOT || (Kind.word w).constant?.isSome
  | .symbol s => s == .leftParen || (Kind.symbol s).unary?.isSome
  | _ => false

theorem Kind.startsExpression_of_unary? {k : Kind} {o : Tag × Nat} (h : k.unary? = some o) :
    k.startsExpression = true := by
  unfold Kind.unary? at h
  split at h
  next => rfl
  next => rfl
  next => rfl
  next => rfl
  next => cases h

theorem Kind.startsExpression_of_constant? {w : Word} {tag : Tag}
    (h : (Kind.word w).constant? = some tag) : (Kind.word w).startsExpression = true := by
  show (_ || (Kind.word w).constant?.isSome) = true
  rw [h]
  exact Bool.or_true _

theorem startsExpression_guarded (position level : Nat)
    (h : ∀ rest, (kindAt 0 (ps ++ rest)).startsExpression = true) (rest : List Piece) :
    (kindAt 0 (guarded position level ps ++ rest)).startsExpression = true := by
  rw [guarded]
  split
  next => rfl
  next => exact h rest

/-- A printed expression begins as expressions can. -/
theorem Expr.startsExpression : (e : Expr) → (rest : List Piece) →
    (kindAt 0 (e.pieces ++ rest)).startsExpression = true
  | .integer _, _ | .float _, _ | .string _, _ | .blob _, _ | .parameter none, _
  | .parameter (some _), _ => rfl
  | .name first more, rest => by
    rw [Expr.pieces, List.map_cons, separated, List.append_assoc, List.singleton_append,
      kindAt_zero_cons, Name.kind_piece]
    rfl
  | .constant k, rest => by
    rw [Expr.pieces, List.singleton_append, kindAt_zero_cons, kind_word]
    exact Kind.startsExpression_of_constant? k.constant
  | .prefixed operator e, rest => by
    rw [Expr.pieces, List.cons_append, kindAt_zero_cons, kind_terminal]
    exact Kind.startsExpression_of_unary? operator.unary
  | .infixed operator left right, rest => by
    rw [Expr.pieces, List.append_assoc]
    exact startsExpression_guarded _ _ left.startsExpression _
  | .isSame _ left _, rest => by
    rw [Expr.pieces, List.append_assoc]
    exact startsExpression_guarded _ _ left.startsExpression _
  | .inList _ left _, rest => by
    rw [Expr.pieces, List.append_assoc]
    exact startsExpression_guarded _ _ left.startsExpression _
  | .between _ left _ _, rest => by
    rw [Expr.pieces, List.append_assoc]
    exact startsExpression_guarded _ _ left.startsExpression _
  | .like _ left _ _, rest => by
    rw [Expr.pieces, List.append_assoc]
    exact startsExpression_guarded _ _ left.startsExpression _
  | .caseOf _ _, rest => by
    rw [Expr.pieces, List.cons_append, kindAt_zero_cons, kind_word]
    rfl
  | .cast _ _, rest => by
    rw [Expr.pieces, List.cons_append, kindAt_zero_cons, kind_word]
    rfl
  | .function callee _ _, rest => by
    rw [Expr.pieces, Piece.call, List.cons_append, kindAt_zero_cons, Name.kind_piece]
    rfl
  | .extremum callee _ _ _ _ _, rest => by
    rw [Expr.pieces, Piece.call, List.cons_append, kindAt_zero_cons, PlainName.kind_piece]
    rfl
  | .aggregate callee _ _ _ _, rest => by
    rw [Expr.pieces, Piece.call, List.cons_append, List.cons_append, kindAt_zero_cons,
      PlainName.kind_piece]
    rfl
  | .columnExtremum callee _ _ _ _, rest => by
    rw [Expr.pieces, Piece.call, List.cons_append, List.cons_append, kindAt_zero_cons,
      PlainName.kind_piece]
    rfl
  | .countRows callee _ _, rest => by
    rw [Expr.pieces, List.cons_append, List.cons_append, kindAt_zero_cons, PlainName.kind_piece]
    rfl

/-- No query begins as an expression does. -/
theorem Kind.startsQuery_of_startsExpression {k : Kind} (h : k.startsExpression = true) :
    k.startsQuery = false := by
  cases k with
  | word w => cases w <;> first | rfl | cases h
  | _ => rfl

/-! ### Children -/

/-- An operand that begins with no prefix operator is a primary. -/
theorem takes_operand_of_primary {P : NodeId → Arena → Prop}
    (hfront : (kindAt 0 (ps ++ rest)).unary? = none)
    (h : Takes source (fun _ => True) (primary c) ps rest P) :
    Takes source (fun _ => True) (operand c) ps rest P := by
  rw [operand]
  refine Leads.current fun t ht => ?_
  refine Leads.peek fun following _ => ?_
  have hminus : t.kind ≠ .symbol .minus := by
    intro heq
    rw [← ht, heq] at hfront
    cases hfront
  rw [if_neg (by simp [hminus]), ht, hfront]
  exact h

/-- An expression on a level of its own, where operators of every power may stand. -/
theorem Expr.Reads.alone (h : e.Reads) (hdepth : e.depth < room) (hrest : weight rest = 0) :
    Takes source (fun _ => True) (contextOf settings room).expression e.pieces rest
      fun id A => Shows source A id e.datum := by
  obtain ⟨room, rfl⟩ : ∃ k, room = k + 1 := ⟨room - 1, by omega⟩
  show Takes source _ ((contextOf settings (room + 1)).enter (.expression 0)) e.pieces rest _
  rw [enter_expression]
  have hleads := h source settings room 0 rest (by omega) (Nat.zero_le _) (by omega)
  refine Leads.close hleads fun left => ?_
  exact takes_extend_none left (power_lt_of_weight_le (by decide) (by omega))

/-- An expression in parentheses is a primary. -/
theorem Expr.Reads.parenthesized (h : e.Reads) (hdepth : e.depth < room) :
    Takes source (fun _ => True) (primary (contextOf settings room))
      (symbol .leftParen :: (e.pieces ++ [symbol .rightParen])) rest
      fun id A => Shows source A id e.datum := by
  rw [primary]
  refine Leads.currentPiece fun t hkind _ _ => ?_
  rw [hkind, kind_symbol]
  show Leads source _ (Expression.parenthesized _) _ rest _ _
  rw [parenthesized_eq]
  refine Leads.advance ?_
  refine Takes.seq (P := fun id A => Shows source A id e.datum) ?_ fun id => ?_
  · refine Leads.atQuery ?_
    rw [Kind.startsQuery_of_startsExpression (e.startsExpression _), if_neg Bool.false_ne_true]
    exact h.alone hdepth rfl
  · refine Leads.expect ?_
    exact Takes.done fun _ hA => hA.2

/-- A printed expression is read back at every position, in parentheses where it needs them. -/
theorem Expr.Reads.guarded (h : e.Reads) {power : Nat}
    (hdepth : guardedDepth position e.level e.depth ≤ room) (hpower : power ≤ position)
    (hrest : weight rest ≤ position) :
    Leads source (fun _ => True) (expression (contextOf settings room) power) (e.piecesAt position)
      rest (fun id A => Shows source A id e.datum)
      (iterate (extend (contextOf settings room) power)) := by
  rw [guardedDepth] at hdepth
  rw [piecesAt, Piece.guarded]
  by_cases hlevel : e.level < position
  · rw [if_pos hlevel] at hdepth ⊢
    refine Takes.leads (takes_operand_of_primary rfl ?_)
    exact h.parenthesized (by omega)
  · rw [if_neg hlevel] at hdepth ⊢
    exact h source settings room power rest hdepth (by omega) (by omega)

/-- A printed expression is read back on a level of its own, where only operators stand that bind
at least as tightly as its position says. -/
theorem Expr.Reads.enter (h : e.Reads) (hposition : position ∉ [1, 3, 7, 9, 11, 13, 15])
    (hdepth : guardedDepth position e.level e.depth < room)
    (hrest : weight rest ≤ position) :
    Takes source (fun _ => True) ((contextOf settings room).enter (.expression position))
      (e.piecesAt position) rest fun id A => Shows source A id e.datum := by
  obtain ⟨room, rfl⟩ : ∃ k, room = k + 1 := ⟨room - 1, by omega⟩
  rw [enter_expression]
  refine Leads.close (h.guarded (by omega) (Nat.le_refl _) hrest) fun left => ?_
  exact takes_extend_none left (power_lt_of_weight_le hposition hrest)

/-! ### Several expressions -/

/-- Expressions divided by commas are read back. -/
theorem takes_expressions (e : Expr) (es : List Expr) (hes : ∀ x ∈ e :: es, x.Reads)
    (hdepth : depthOfAll (e :: es) ≤ room) (hrest : weight rest = 0)
    (hcomma : kindAt 0 rest ≠ .symbol .comma) :
    Takes source (fun _ => True) (contextOf settings room).expressions
      (commas (piecesOfAll (e :: es))) rest
      fun ids A => ShowsAll source A ids (dataOfAll (e :: es)) := by
  rw [piecesOfAll_eq_map, dataOfAll_eq_map]
  refine takes_separatedBy e es (fun x hx more hmore => ?_) hcomma
  have hlt := depth_lt_depthOfAll hx
  refine (hes x hx).alone (by omega) ?_
  rcases hmore with rfl | ⟨others, rfl⟩
  · exact hrest
  · rfl

/-- The arguments of a call are read back. -/
theorem takes_arguments (es : List Expr) (hes : ∀ x ∈ es, x.Reads)
    (hdepth : depthOfAll es ≤ room) :
    Takes source (fun _ => True) (arguments (contextOf settings room))
      (commas (piecesOfAll es) ++ [symbol .rightParen]) rest
      fun ids A => ShowsAll source A ids (dataOfAll es) := by
  rw [arguments_eq]
  refine Takes.seq (P := fun ids A => ShowsAll source A ids (dataOfAll es)) ?_ fun ids => ?_
  · refine Leads.at? ?_
    cases es with
    | nil => exact Takes.done fun A _ => showsAll_nil
    | cons e es =>
      have hfront : (kindAt 0 (commas (piecesOfAll (e :: es)) ++ ([symbol .rightParen] ++ rest)) ==
          (Terminal.symbol .rightParen).kind) = false := by
        rw [beq_eq_false_iff_ne, piecesOfAll, commas, separated, List.append_assoc]
        intro h
        have hstart := e.startsExpression ((piecesOfAll es).flatMap (terminal (.symbol .comma) :: ·) ++
          ([symbol .rightParen] ++ rest))
        rw [h] at hstart
        cases hstart
      rw [hfront, if_neg Bool.false_ne_true]
      exact takes_expressions e es hes hdepth rfl (by simp)
  · refine Leads.expect ?_
    exact Takes.done fun A hA => hA.2

end TaggedSql
