import TaggedSql.Proofs.Expression.Primary

/-!
# Printed calls are read back

The name of an aggregate means the aggregate unless it is quoted; of several arguments, the least and
the greatest are plain functions. Behind an aggregate stands perhaps its condition.

* `takes_call`: a call is read up to its closing parenthesis, and then as the node that it becomes;
* `takes_aggregateFilter`: the condition of an aggregate is read back, and nothing else is taken for
  one.
-/

namespace TaggedSql

open Piece Rule Expression Arena Statement
open TaggedSql.Expr (piecesOfAll dataOfAll depthOfAll piecesOfSome datumOfSome depthOfSome dataOfAll_eq_map)

variable {source : String} {settings : Settings} {room : Nat} {ps rest : List Piece} {c : Context}

/-! ### Calls -/

/-- Whether a call has the word `DISTINCT`. -/
def CallMark.isDistinct : CallMark → Bool
  | .none | .all => false
  | .distinct => true

theorem takes_distinctMark (mark : CallMark) (hdistinct : kindAt 0 rest ≠ .word .DISTINCT)
    (hall : kindAt 0 rest ≠ .word .ALL) :
    Takes source (fun _ => True) distinctMark mark.pieces rest fun b _ => b = mark.isDistinct := by
  rw [distinctMark]
  cases mark with
  | none =>
    refine Leads.skip hdistinct ?_
    refine Leads.skip hall ?_
    exact Takes.done fun _ _ => rfl
  | all =>
    refine Leads.skip (by simp [CallMark.pieces]) ?_
    refine Leads.eat (t := .word .ALL) ?_
    exact Takes.done fun _ _ => rfl
  | distinct =>
    refine Leads.eat (t := .word .DISTINCT) ?_
    exact Takes.done fun _ _ => rfl

theorem takes_distinctNode (mark : CallMark) :
    Takes source (fun _ => True) (distinctNode mark.isDistinct) [] rest
      fun ids A => ShowsAll source A ids mark.data := by
  rw [distinctNode]
  cases mark with
  | none => exact Takes.done fun _ _ => showsAll_nil
  | all => exact Takes.done fun _ _ => showsAll_nil
  | distinct =>
    refine Leads.pushTag fun id => ?_
    exact Takes.done fun A hA => hA.2.single

/-- The condition of an aggregate is read back, and nothing else is taken for one. -/
theorem takes_aggregateFilter (filter : Option Expr) (hfilter : ∀ e ∈ filter, e.Reads)
    (hdepth : depthOfSome 0 filter ≤ room) (hrest : weight rest ≤ 19) :
    Takes source (fun _ => True) (aggregateFilter (contextOf settings room))
      (Piece.filter (piecesOfSome 0 filter)) rest
      fun ids A => ShowsAll source A ids (Datum.filter (datumOfSome filter)) := by
  rw [aggregateFilter]
  cases filter with
  | none =>
    refine Leads.current fun t ht => ?_
    refine Leads.peek fun following hfollowing => ?_
    have hopens : ¬ (t.kind = .identifier false ∧ following.kind = .symbol .leftParen) := by
      rintro ⟨hname, hparen⟩
      have hfirst : kindAt 0 rest = .identifier false := ht.symm.trans hname
      have hsecond : kindAt 1 rest = .symbol .leftParen := hfollowing.symm.trans hparen
      have hweight : weight rest = 20 := by
        simp [weight, infix?, isNegated, tailWeight, hfirst, hsecond, Kind.binary?]
      omega
    dsimp only
    rw [if_neg ?_]
    · exact Takes.done fun _ _ => showsAll_nil
    · simp only [Bool.and_eq_true, beq_iff_eq]
      exact fun h => hopens ⟨h.1.1, h.2⟩
  | some e =>
    refine Leads.currentPiece fun t hkind htext _ => ?_
    refine Leads.peek fun following hfollowing => ?_
    have hname : t.kind = .identifier false := by rw [hkind, PlainName.kind_piece]
    have hparen : following.kind = .symbol .leftParen := hfollowing
    have hword : t.text.toList.map Char.toLower = ['f', 'i', 'l', 't', 'e', 'r'] := by
      rw [htext]
      decide
    dsimp only
    rw [if_pos (by rw [hname, hparen, hword]; decide)]
    refine Leads.advance ?_
    refine Leads.advance ?_
    refine Leads.expect (t := .word .WHERE) ?_
    refine Takes.seq ((hfilter e rfl).alone hdepth rfl) fun condition => ?_
    refine Leads.expect (t := .symbol .rightParen) ?_
    refine Leads.tagged (fun A hA => hA.2.single) fun clause => ?_
    exact Takes.done fun A hA => hA.2.single

/-- The least or greatest of several values is no aggregate; every other use of an aggregate's name
is. -/
def AggregateName.means (a : AggregateName) (count : Nat) : Option Tag :=
  if a.isExtremum && 1 < count then none else some a.tag

theorem calledAggregate?_some (a : AggregateName) (ids : List NodeId) :
    calledAggregate? (some a.tag) ids = a.means ids.length := by
  show Option.filter (fun t => !((t == .min || t == .max) && 1 < ids.length)) (some a.tag) = _
  rw [Option.filter_some, AggregateName.means, AggregateName.isExtremum]
  cases (a.tag == .min || a.tag == .max) && decide (1 < ids.length) <;> rfl

/-- A call is read up to the closing parenthesis, and then as the node that it becomes. -/
theorem takes_call {name : Piece} {quoted : Bool} {mark : CallMark} {es : List Expr}
    {tail : List Piece} {P : NodeId → Arena → Prop}
    (hes : ∀ e ∈ es, e.Reads) (hdepth : depthOfAll es ≤ room)
    (hnode : ∀ (t : Token) (items : List NodeId), t.text = String.ofList name.body →
      t.span.slice source = t.text → items.length = es.length →
      Takes source (fun A => ShowsAll source A items (dataOfAll es))
        (callNode (contextOf settings room) t mark.isDistinct items
          (calledAggregate? (namedAggregate? quoted t) items)) tail rest P) :
    Takes source (fun _ => True) (Expression.call (contextOf settings room) quoted)
      (Piece.call name mark (piecesOfAll es) ++ tail) rest P := by
  have hstart : ∀ k : Kind, k.startsExpression = false → k ≠ .symbol .rightParen →
      kindAt 0 (commas (piecesOfAll es) ++ ([symbol .rightParen] ++ (tail ++ rest))) ≠ k := by
    intro k hk hparen h
    cases es with
    | nil => exact hparen h.symm
    | cons e es =>
      rw [piecesOfAll, commas, separated, List.append_assoc] at h
      rw [← h, e.startsExpression] at hk
      cases hk
  have hpieces : Piece.call name mark (piecesOfAll es) ++ tail =
      name :: symbol .leftParen ::
        (mark.pieces ++ ((commas (piecesOfAll es) ++ [symbol .rightParen]) ++ tail)) := by
    simp [Piece.call]
  rw [call_eq, hpieces]
  refine Leads.currentPiece fun t _ htext hslice => ?_
  refine Leads.advance ?_
  refine Leads.expect (t := .symbol .leftParen) ?_
  -- A star stands neither before the arguments nor in their place.
  refine Takes.passEq (v := false) ?_ ?_
  · rw [countStar]
    split
    next =>
      refine Takes.of_bind_pure (Leads.skip ?_ (Takes.done fun _ _ => rfl))
      cases mark with
      | none =>
        have := hstart (.symbol .star) rfl (by decide)
        simpa [CallMark.pieces] using this
      | all => simp [CallMark.pieces]
      | distinct => simp [CallMark.pieces]
    next => exact Takes.done fun _ _ => rfl
  rw [if_neg Bool.false_ne_true]
  refine Takes.seqEq (takes_distinctMark mark ?_ ?_) ?_
  · simpa using hstart (.word .DISTINCT) rfl (by decide)
  · simpa using hstart (.word .ALL) rfl (by decide)
  refine Takes.seq (takes_arguments es hes hdepth) fun items => ?_
  refine Leads.know (fun A hA => hA.2.length_eq) fun hlength => ?_
  rw [dataOfAll_eq_map, List.length_map] at hlength
  exact (hnode t items htext hslice hlength).weaken fun A hA => hA.2

/-- A plain function becomes its name and its arguments. -/
theorem takes_callNode_plain {t : Token} {mark : CallMark} {items : List NodeId} {ds : List Datum}
    (hslice : t.span.slice source = t.text) :
    Takes source (fun A => ShowsAll source A items ds) (callNode c t mark.isDistinct items none) []
      rest fun id A => Shows source A id (.call .function (.name t.text) mark ds []) := by
  refine Leads.pushTag fun head => ?_
  refine Leads.push (d := .name t.text) (by rw [← hslice]; rfl) fun function => ?_
  refine Takes.pass (takes_distinctNode mark) fun distinct => ?_
  refine Leads.pushList (fun A hA => hA.1.1.1) fun list => ?_
  refine Takes.pushList fun A hA => ?_
  obtain ⟨⟨⟨⟨_, hhead⟩, hfunction⟩, hmark⟩, hlist⟩ := hA
  rw [List.append_nil]
  exact ((showsAll_cons.2 ⟨hhead, hfunction.single⟩).append hmark).append hlist.single

/-- An aggregate becomes its tag, its arguments and its condition. -/
theorem takes_callNode_aggregate {t : Token} {tag : Tag} {mark : CallMark} {items : List NodeId}
    {ds : List Datum} (filter : Option Expr) (hfilter : ∀ e ∈ filter, e.Reads)
    (hdepth : depthOfSome 0 filter ≤ room) (hrest : weight rest ≤ 19) :
    Takes source (fun A => ShowsAll source A items ds)
      (callNode (contextOf settings room) t mark.isDistinct items (some tag))
      (Piece.filter (piecesOfSome 0 filter)) rest
      fun id A => Shows source A id
        (.call .aggregateFunction (.tag tag) mark ds (Datum.filter (datumOfSome filter))) := by
  refine Leads.pushTag fun head => ?_
  refine Leads.pushTag fun function => ?_
  refine Takes.pass (takes_distinctNode mark) fun distinct => ?_
  refine Leads.pushList (fun A hA => hA.1.1.1) fun list => ?_
  rw [← List.append_nil (Piece.filter _)]
  refine Takes.seq (takes_aggregateFilter filter hfilter hdepth hrest) fun condition => ?_
  refine Takes.pushList fun A hA => ?_
  obtain ⟨⟨⟨⟨⟨_, hhead⟩, hfunction⟩, hmark⟩, hlist⟩, hcondition⟩ := hA
  exact (((showsAll_cons.2 ⟨hhead, hfunction.single⟩).append hmark).append hlist.single).append
    hcondition

/-- A name before an opening parenthesis is that of a call. -/
theorem takes_primary_call {name : Piece} {quoted : Bool} {P : NodeId → Arena → Prop}
    (hkind : name.kind = .identifier quoted)
    (h : Takes source (fun _ => True) (Expression.call c quoted) (name :: symbol .leftParen :: ps)
      rest P) :
    Takes source (fun _ => True) (primary c) (name :: symbol .leftParen :: ps) rest P := by
  rw [primary]
  refine Leads.currentPiece fun t ht _ _ => ?_
  rw [ht, hkind]
  refine Leads.peek fun following hfollowing => ?_
  rw [if_pos (by rw [hfollowing]; rfl)]
  exact h

/-- A call that means no aggregate is read back as a plain function. -/
theorem takes_primary_plain {name : Piece} {quoted : Bool} (mark : CallMark) (es : List Expr)
    (hkind : name.kind = .identifier quoted) (hes : ∀ e ∈ es, e.Reads)
    (hdepth : depthOfAll es ≤ room)
    (hplain : ∀ (t : Token) (items : List NodeId), t.text = String.ofList name.body →
      items.length = es.length → calledAggregate? (namedAggregate? quoted t) items = none) :
    Takes source (fun _ => True) (primary (contextOf settings room))
      (Piece.call name mark (piecesOfAll es)) rest
      fun id A => Shows source A id
        (.call .function (.name (String.ofList name.body)) mark (dataOfAll es) []) := by
  refine takes_primary_call hkind ?_
  show Takes source _ _ (Piece.call name mark (piecesOfAll es)) rest _
  rw [← List.append_nil (Piece.call _ _ _)]
  refine takes_call hes hdepth fun t items htext hslice hlength => ?_
  rw [hplain t items htext hlength, ← htext]
  exact takes_callNode_plain hslice

/-- A call that means an aggregate is read back with its condition. -/
theorem takes_primary_aggregate (callee : AggregateName) (mark : CallMark) (es : List Expr)
    (filter : Option Expr) (hes : ∀ e ∈ es, e.Reads) (hdepth : depthOfAll es ≤ room)
    (hmeans : callee.means es.length = some callee.tag) (hfilter : ∀ e ∈ filter, e.Reads)
    (hdepth' : depthOfSome 0 filter ≤ room) (hrest : weight rest ≤ 19) :
    Takes source (fun _ => True) (primary (contextOf settings room))
      (Piece.call callee.name.piece mark (piecesOfAll es) ++ Piece.filter (piecesOfSome 0 filter)) rest
      fun id A => Shows source A id
        (.call .aggregateFunction (.tag callee.tag) mark (dataOfAll es)
          (Datum.filter (datumOfSome filter))) := by
  refine takes_primary_call callee.name.kind_piece ?_
  show Takes source _ _ (Piece.call callee.name.piece mark (piecesOfAll es) ++ _) rest _
  refine takes_call hes hdepth fun t items htext _ hlength => ?_
  have haggregate : namedAggregate? false t = some callee.tag := by
    rw [namedAggregate?, if_neg Bool.false_ne_true, htext, String.toList_ofList]
    exact callee.isAggregate
  rw [haggregate, calledAggregate?_some, hlength, hmeans]
  exact takes_callNode_aggregate filter hfilter hdepth' hrest

theorem kindAt_call {name : Piece} {mark : CallMark} {items : List (List Piece)} :
    kindAt 0 (Piece.call name mark items ++ ps) = name.kind := rfl

theorem Expr.reads_function (callee : FunctionName) (mark : CallMark) (es : List Expr)
    (hes : ∀ e ∈ es, e.Reads) : (Expr.function callee mark es).Reads := by
  refine reads_of_primary rfl (fun rest => ?_) fun source settings room rest hdepth _ => ?_
  · rw [Expr.pieces, kindAt_call, Name.kind_piece]
    rfl
  · refine takes_primary_plain mark es callee.name.kind_piece hes hdepth fun t items htext _ => ?_
    rw [namedAggregate?, htext, String.toList_ofList]
    rcases callee.isPlain with hquoted | hname
    · rw [hquoted]
      rfl
    · rw [hname, ite_self]
      rfl

theorem Expr.reads_extremum (callee : AggregateName) (h : callee.isExtremum = true)
    (mark : CallMark) (first second : Expr) (more : List Expr)
    (hes : ∀ e ∈ first :: second :: more, e.Reads) :
    (Expr.extremum callee h mark first second more).Reads := by
  refine reads_of_primary rfl (fun rest => ?_) fun source settings room rest hdepth _ => ?_
  · rw [Expr.pieces, kindAt_call, PlainName.kind_piece]
    rfl
  · have hall : depthOfAll (first :: second :: more) ≤ room := by
      rw [Expr.depth] at hdepth
      rw [depthOfAll, depthOfAll]
      omega
    refine takes_primary_plain mark (first :: second :: more) callee.name.kind_piece hes hall
      fun t items htext hlength => ?_
    have haggregate : namedAggregate? false t = some callee.tag := by
      rw [namedAggregate?, if_neg Bool.false_ne_true, htext, String.toList_ofList]
      exact callee.isAggregate
    have hseveral : decide (1 < (first :: second :: more).length) = true := by simp
    rw [haggregate, calledAggregate?_some, hlength, AggregateName.means, h, hseveral]
    rfl

theorem Expr.reads_aggregate (callee : AggregateName) (h : callee.isExtremum = false)
    (mark : CallMark) (es : List Expr) (filter : Option Expr) (hes : ∀ e ∈ es, e.Reads)
    (hfilter : ∀ e ∈ filter, e.Reads) : (Expr.aggregate callee h mark es filter).Reads := by
  refine reads_of_primary rfl (fun rest => ?_) fun source settings room rest hdepth hrest => ?_
  · rw [Expr.pieces, List.append_assoc, kindAt_call, PlainName.kind_piece]
    rfl
  · rw [Expr.depth] at hdepth
    have hmeans : callee.means es.length = some callee.tag := by
      rw [AggregateName.means, h]
      rfl
    exact takes_primary_aggregate callee mark es filter hes (by omega) hmeans hfilter (by omega) hrest

theorem Expr.reads_columnExtremum (callee : AggregateName) (h : callee.isExtremum = true)
    (mark : CallMark) (argument filter : Option Expr) (hargument : ∀ e ∈ argument, e.Reads)
    (hfilter : ∀ e ∈ filter, e.Reads) :
    (Expr.columnExtremum callee h mark argument filter).Reads := by
  -- One argument or none: the same pieces, data and levels as a list of them.
  have hlist : (piecesOfSome 0 argument).toList = piecesOfAll argument.toList ∧
      (datumOfSome argument).toList = dataOfAll argument.toList ∧
      depthOfSome 0 argument = depthOfAll argument.toList := by
    cases argument with
    | none => exact ⟨rfl, rfl, rfl⟩
    | some e => exact ⟨rfl, rfl, (Nat.max_zero _).symm⟩
  obtain ⟨hpieces, hdata, hlevels⟩ := hlist
  refine reads_of_primary rfl (fun rest => ?_) fun source settings room rest hdepth hrest => ?_
  · rw [Expr.pieces, List.append_assoc, kindAt_call, PlainName.kind_piece]
    rfl
  · rw [Expr.depth] at hdepth
    have hmeans : callee.means argument.toList.length = some callee.tag := by
      cases argument <;> simp [AggregateName.means]
    rw [Expr.pieces, Expr.datum, hpieces, hdata]
    exact takes_primary_aggregate callee mark argument.toList filter
      (fun e he => hargument e (Option.mem_toList.1 he)) (by omega) hmeans hfilter (by omega) hrest

theorem Expr.reads_countRows (callee : PlainName) (h : Tag.aggregate? callee.text = some .count)
    (filter : Option Expr) (hfilter : ∀ e ∈ filter, e.Reads) :
    (Expr.countRows callee h filter).Reads := by
  refine reads_of_primary rfl (fun rest => ?_) fun source settings room rest hdepth hrest => ?_
  · rw [Expr.pieces, List.cons_append, List.cons_append, kindAt_zero_cons, PlainName.kind_piece]
    rfl
  · refine takes_primary_call callee.kind_piece ?_
    rw [call_eq]
    refine Leads.currentPiece fun t _ htext _ => ?_
    refine Leads.advance ?_
    refine Leads.expect (t := .symbol .leftParen) ?_
    have haggregate : namedAggregate? false t = some .count := by
      rw [namedAggregate?, if_neg Bool.false_ne_true, htext, String.toList_ofList]
      exact h
    rw [haggregate]
    refine Leads.eat (t := .symbol .star) ?_
    rw [if_pos rfl, countNode]
    refine Leads.expect (t := .symbol .rightParen) ?_
    refine Leads.pushTag fun head => ?_
    refine Leads.pushTag fun function => ?_
    refine Leads.pushList (fun A _ => showsAll_nil) fun list => ?_
    show Leads source _ _ (Piece.filter (piecesOfSome 0 filter)) rest _ _
    rw [← List.append_nil (Piece.filter _)]
    refine Takes.seq (takes_aggregateFilter filter hfilter hdepth hrest) fun condition => ?_
    refine Takes.pushList fun A hA => ?_
    obtain ⟨⟨⟨⟨_, hhead⟩, hfunction⟩, hlist⟩, hcondition⟩ := hA
    exact (showsAll_cons.2 ⟨hhead, showsAll_cons.2 ⟨hfunction, hlist.single⟩⟩).append hcondition

end TaggedSql
