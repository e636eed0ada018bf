import TaggedSql.Proofs.Expression.Reads

/-!
# Printed primaries are read back

One statement for each kind of primary but calls: literals, parameters, constants and names, `CAST`
with its type, and `CASE` with its branches. The children are taken as read back.

* `takes_typeName`: the words of a type are covered by one span;
* `takes_caseBranches`: the branches of `CASE` are read one by one.
-/

namespace TaggedSql

open Piece Rule Expression Arena Statement
open TaggedSql.Expr (piecesOfSome datumOfSome depthOfSome)

variable {source : String} {settings : Settings} {room position : Nat} {ps rest : List Piece}
  {c : Context} {e : Expr}

/-! ### Literals, parameters and constants -/

/-- Primaries are read back as primaries. -/
theorem Expr.reads_of_primary (hlevel : e.level = 19)
    (hfront : ∀ rest, (kindAt 0 (e.pieces ++ rest)).unary? = none)
    (h : ∀ (source : String) (settings : Settings) (room : Nat) (rest : List Piece),
      e.depth ≤ room → weight rest ≤ 19 →
      Takes source (fun _ => True) (primary (contextOf settings room)) e.pieces rest
        fun id A => Shows source A id e.datum) : e.Reads := by
  intro source settings room power rest hdepth _ hrest
  rw [hlevel] at hrest
  exact Takes.leads (takes_operand_of_primary (hfront rest) (h source settings room rest hdepth hrest))

theorem Expr.reads_integer (n : Magnitude) : (Expr.integer n).Reads := by
  refine reads_of_primary rfl (fun _ => rfl) fun source settings room rest _ _ => ?_
  rw [primary]
  refine Leads.currentPiece fun t hkind _ _ => ?_
  rw [hkind]
  exact Takes.pushAtom rfl

theorem Expr.reads_float (l : FloatLiteral) : (Expr.float l).Reads := by
  refine reads_of_primary rfl (fun _ => rfl) fun source settings room rest _ _ => ?_
  rw [primary]
  refine Leads.currentPiece fun t hkind _ _ => ?_
  rw [hkind]
  exact Takes.pushAtom rfl

theorem Expr.reads_string (content : List Char) : (Expr.string content).Reads := by
  refine reads_of_primary rfl (fun _ => rfl) fun source settings room rest _ _ => ?_
  rw [primary]
  refine Leads.currentPiece fun t hkind htext hslice => ?_
  rw [hkind]
  refine Takes.pushAtom ?_
  show some (Datum.string (t.span.slice source)) = _
  rw [hslice, htext]
  rfl

theorem Expr.reads_blob (b : BlobDigits) : (Expr.blob b).Reads := by
  refine reads_of_primary rfl (fun _ => rfl) fun source settings room rest _ _ => ?_
  rw [primary]
  refine Leads.currentPiece fun t hkind htext hslice => ?_
  rw [hkind]
  refine Takes.pushAtom ?_
  show some (Datum.blob (t.span.slice source)) = _
  rw [hslice, htext]
  rfl

theorem Expr.reads_parameter (name : Option ParameterName) : (Expr.parameter name).Reads := by
  cases name with
  | none =>
    refine reads_of_primary rfl (fun _ => rfl) fun source settings room rest _ _ => ?_
    rw [primary]
    refine Leads.currentPiece fun t hkind _ _ => ?_
    rw [hkind]
    show Leads source _ (Expression.parameter false t.span) _ rest _ _
    rw [Expression.parameter]
    refine Leads.advance ?_
    exact Takes.tagged fun A _ => showsAll_nil
  | some n =>
    refine reads_of_primary rfl (fun _ => rfl) fun source settings room rest _ _ => ?_
    rw [primary]
    refine Leads.currentPiece fun t hkind htext hslice => ?_
    rw [hkind]
    show Leads source _ (Expression.parameter true t.span) _ rest _ _
    rw [Expression.parameter]
    refine Leads.advance ?_
    rw [if_pos rfl]
    have hname : (Node.name t.span).leaf?.map (Form.read source) =
        some (.name (String.ofList n.text)) := by
      show some (Datum.name (t.span.slice source)) = _
      rw [hslice, htext]
      rfl
    refine Leads.push hname fun id => ?_
    exact Takes.tagged fun A hA => hA.2.single

/-- The words that are constants. -/
theorem Kind.mem_of_constant? {w : Word} {tag : Tag} (h : (Kind.word w).constant? = some tag) :
    w ∈ [.NULL, .TRUE, .FALSE, .CURRENT_DATE, .CURRENT_TIME, .CURRENT_TIMESTAMP] := by
  unfold Kind.constant? at h
  split at h
  case h_7 => cases h
  all_goals
    rename_i heq
    cases heq
    decide

theorem Expr.reads_constant (k : Constant) : (Expr.constant k).Reads := by
  obtain ⟨w, tag, hconstant⟩ := k
  have hmem := Kind.mem_of_constant? hconstant
  have hunary : (Kind.word w).unary? = none := by
    fin_cases hmem <;> rfl
  refine reads_of_primary rfl (fun rest => ?_) fun source settings room rest _ _ => ?_
  · rw [Expr.pieces, List.singleton_append, kindAt_zero_cons, kind_word, hunary]
  · rw [primary]
    refine Leads.currentPiece fun t hkind _ _ => ?_
    rw [hkind, kind_word]
    fin_cases hmem <;>
      (cases hconstant; exact Takes.pushAtom rfl)

/-! ### Names -/

/-- Neither a point nor an opening parenthesis follows an expression. -/
theorem kindAt_ne_of_weight_le (h : weight rest ≤ 19) :
    kindAt 0 rest ≠ .symbol .dot ∧ kindAt 0 rest ≠ .symbol .leftParen := by
  constructor
  · intro hkind
    have hweight : weight rest = 20 := by
      simp [weight, infix?, isNegated, tailWeight, hkind, Kind.binary?]
    omega
  · intro hkind
    have hweight : weight rest = 20 := by
      simp [weight, infix?, isNegated, tailWeight, hkind, Kind.binary?]
    omega

/-- Names divided by points are read back as one name or as their list. -/
theorem takes_qualifiedName (first : Name) (more : List Name) (hrest : kindAt 0 rest ≠ .symbol .dot) :
    Takes source (fun _ => True) qualifiedName
      (separated (.symbol .dot) ((first :: more).map fun n => [n.piece])) rest
      fun id A => Shows source A id (.qualified first more) := by
  rw [qualifiedName, ← List.append_nil (separated _ _)]
  have hparts : Takes source (fun _ => True) (separatedBy (.symbol .dot) identifier)
      (separated (.symbol .dot) ((first :: more).map fun n => [n.piece])) ([] ++ rest)
      fun ids A => ShowsAll source A ids ((first :: more).map fun n => .name n.text) :=
    takes_separatedBy first more (fun n _ _ _ => takes_identifier n) hrest
  refine Takes.seq hparts fun parts => ?_
  refine Leads.know (p := parts.length = more.length + 1)
    (fun A hA => by simpa using hA.2.length_eq) fun hlength => ?_
  cases more with
  | nil =>
    obtain ⟨id, rfl⟩ := List.length_eq_one_iff.1 hlength
    exact Takes.done fun A hA => (showsAll_cons.1 hA.2).1
  | cons second more =>
    obtain ⟨id, id', ids, rfl⟩ : ∃ id id' ids, parts = id :: id' :: ids := by
      match parts, hlength with
      | id :: id' :: ids, _ => exact ⟨id, id', ids, rfl⟩
    exact Takes.pushList fun A hA => hA.2

theorem Expr.reads_name (first : Name) (more : List Name) : (Expr.name first more).Reads := by
  have hfront : ∀ rest, kindAt 0 ((Expr.name first more).pieces ++ rest) =
      .identifier first.isQuoted := by
    intro rest
    rw [Expr.pieces, List.map_cons, separated, List.append_assoc, List.singleton_append,
      kindAt_zero_cons, Name.kind_piece]
  refine reads_of_primary rfl (fun rest => by rw [hfront]; rfl)
    fun source settings room rest _ hrest => ?_
  obtain ⟨hdot, hparen⟩ := kindAt_ne_of_weight_le hrest
  rw [primary]
  refine Leads.current fun t ht => ?_
  rw [ht, hfront]
  refine Leads.peek fun following hfollowing => ?_
  have hname : (following.kind == .symbol .leftParen) = false := by
    rw [hfollowing, beq_eq_false_iff_ne, Expr.pieces]
    cases more with
    | nil => exact hparen
    | cons second more => simp [separated, terminal]
  rw [hname, if_neg Bool.false_ne_true]
  exact takes_qualifiedName first more hdot

/-! ### Types -/

/-- A printed word that is not reserved, at the front of a stream. -/
theorem Laid.plainWord {s : ParseState} {word : PlainName}
    (h : Laid source s.stream.ahead (word.piece :: ps)) :
    ∃ t ts, s.stream.ahead = t :: ts ∧ s.stream.current = t ∧ t.kind = .identifier false ∧
      t.text.toList = word.text ∧
      (∀ ws, ws <+: ts → (∀ w ∈ ws, w.kind = .identifier false) →
        (Span.mk t.span.start (Token.lastStop t.span.stop ws)).slice source =
          String.ofList (Text.spaced (word.text :: ws.map fun w => w.text.toList))) ∧
      Laid source ts ps ∧ atPlainIdentifier s = .ok true s ∧
      Rule.advance s = .ok () ⟨⟨ts, s.stream.stop⟩, s.arena⟩ := by
  obtain ⟨t, ts, hahead, hbare, _, hwords, hlaid⟩ := h.exists_cons
  have hkind : t.kind = .identifier false := (congrArg Prod.fst hbare).trans word.kind_piece
  have htext : t.text.toList = word.text := by
    rw [show t.text = String.ofList word.text from congrArg Prod.snd hbare, String.toList_ofList]
  have hcurrent : s.stream.current = t := by rw [Stream.current, Stream.peek, hahead]; rfl
  have hadvance : s.stream.advance = ⟨ts, s.stream.stop⟩ := by
    rw [Stream.advance, hahead]
    rfl
  refine ⟨t, ts, hahead, hcurrent, hkind, htext, fun ws hws hplain => ?_, hlaid, ?_, ?_⟩
  · rw [← htext]
    refine hwords ws hws fun w hw => ?_
    rcases List.mem_cons.1 hw with rfl | hw
    · exact hkind
    · exact hplain w hw
  · show EStateM.Result.ok (s.stream.current.kind == .identifier false) s = _
    rw [hcurrent, hkind]
    rfl
  · rw [advance_run, hadvance]
    intro problem hproblem
    rw [hadvance, Stream.current, Laid.kind_peek hlaid 0] at hproblem
    exact kindAt_ne_problem 0 _ problem hproblem

/-- The words of a type are taken up to the last one. -/
theorem typeWords_run (words : List PlainName) (hrest : kindAt 0 rest ≠ .identifier false) :
    ∀ (stop : Nat) (s : ParseState),
      Laid source s.stream.ahead (words.map PlainName.piece ++ rest) →
      ∃ ws more, s.stream.ahead = ws ++ more ∧ Laid source more rest ∧
        (ws.map fun w => w.text.toList) = words.map PlainName.text ∧
        (∀ w ∈ ws, w.kind = .identifier false) ∧
        typeWords stop s = .ok (Token.lastStop stop ws) ⟨⟨more, s.stream.stop⟩, s.arena⟩ := by
  induction words with
  | nil =>
    intro stop s hs
    have hkind : s.stream.current.kind ≠ .identifier false := by
      rw [Stream.current, hs.kind_peek 0]
      exact hrest
    have hfront : atPlainIdentifier s = .ok false s := by
      show EStateM.Result.ok (s.stream.current.kind == .identifier false) s = _
      rw [beq_false_of_ne hkind]
    refine ⟨[], s.stream.ahead, rfl, hs, rfl, by simp, ?_⟩
    rw [typeWords, iterate, bind_of_ok (current_run s), bind_of_ok hfront]
    rfl
  | cons word words ih =>
    intro stop s hs
    obtain ⟨t, ts, hahead, hcurrent, hkind, htext, _, hlaid, hfront, hadvance⟩ := hs.plainWord
    obtain ⟨ws, more, hws, hmore, htexts, hkinds, hrun⟩ :=
      ih t.span.stop ⟨⟨ts, s.stream.stop⟩, s.arena⟩ hlaid
    refine ⟨t :: ws, more, by rw [hahead]; exact congrArg (t :: ·) hws, hmore,
      by simp [htext, htexts], ?_, ?_⟩
    · intro w hw
      rcases List.mem_cons.1 hw with rfl | hw
      · exact hkind
      · exact hkinds w hw
    · have hshorter : (Stream.mk ts s.stream.stop).size < s.stream.size := by
        show ts.length < s.stream.ahead.length
        rw [hahead]
        exact Nat.lt_succ_self _
      rw [typeWords, iterate, bind_of_ok (current_run s), bind_of_ok hfront, if_pos rfl,
        bind_of_ok hadvance, hcurrent]
      show (if _ then _ else _) = _
      rw [if_pos hshorter]
      exact hrun

/-- The span of the words of a type covers them with one space between neighbours. -/
theorem takes_typeSpan (first : PlainName) (more : List PlainName)
    (hrest : kindAt 0 rest ≠ .identifier false) :
    Takes source (fun _ => True) typeSpan (first.piece :: more.map PlainName.piece) rest
      fun span _ => span.slice source =
        String.ofList (Text.spaced (first.text :: more.map PlainName.text)) := by
  intro s hs _ _
  obtain ⟨t, ts, _, hcurrent, _, _, hwords, hlaid, hfront, hadvance⟩ := hs.plainWord
  obtain ⟨ws, behind, hws, hbehind, htexts, hkinds, hrun⟩ :=
    typeWords_run more hrest t.span.stop ⟨⟨ts, s.stream.stop⟩, s.arena⟩ hlaid
  refine ⟨⟨t.span.start, Token.lastStop t.span.stop ws⟩, ⟨⟨behind, s.stream.stop⟩, s.arena⟩, ?_,
    hbehind, Grows.refl _, ?_⟩
  · rw [typeSpan, bind_of_ok hfront, require, if_pos rfl, pure_bind, bind_of_ok (current_run s),
      bind_of_ok hadvance, hcurrent, bind_of_ok hrun]
  · rw [← htexts]
    exact hwords ws ⟨behind, hws.symm⟩ hkinds

theorem takes_typeSize (n : Magnitude) :
    Takes source (fun _ => True) typeSize [n.piece] rest
      fun id A => Shows source A id n.datum := by
  rw [typeSize]
  refine Leads.currentPiece fun t hkind _ _ => ?_
  rw [hkind]
  exact Takes.pushAtom rfl

/-- The sizes of a type are read back. -/
theorem takes_typeSizes (name : NodeId) (type : TypeName)
    (hrest : kindAt 0 rest ≠ .symbol .leftParen) :
    Takes source (fun A => Shows source A name (.name type.text)) (typeSizes name)
      type.sizes.pieces rest fun id A => Shows source A id type.datum := by
  rw [typeSizes, TypeName.datum]
  cases type.sizes with
  | none =>
    refine Leads.skip hrest ?_
    exact Takes.done fun A hA => hA
  | one size =>
    refine Leads.eat (t := .symbol .leftParen) ?_
    refine Leads.pushTag fun head => ?_
    refine Takes.seq (takes_typeSize size) fun sizeId => ?_
    refine Takes.passEq (v := []) ?_ ?_
    · exact (takes_behind_none (by simp)).imp fun _ _ h => h.1
    refine Leads.expect (t := .symbol .rightParen) ?_
    refine Takes.pushList fun A hA => ?_
    obtain ⟨⟨hname, hhead⟩, hsize⟩ := hA
    exact showsAll_cons.2 ⟨hhead, showsAll_cons.2 ⟨hname, hsize.single⟩⟩
  | two size scale =>
    refine Leads.eat (t := .symbol .leftParen) ?_
    refine Leads.pushTag fun head => ?_
    refine Takes.seq (takes_typeSize size) fun sizeId => ?_
    have hscale : Takes source (fun _ => True) typeScale [symbol .comma, scale.piece]
        ([symbol .rightParen] ++ rest) fun ids A => ShowsAll source A ids [scale.datum] := by
      refine Takes.behind (t := .symbol .comma) ?_
      refine Takes.seq (takes_typeSize scale) fun scaleId => ?_
      exact Takes.done fun A hA => hA.2.single
    refine Takes.seq hscale fun scaleIds => ?_
    refine Leads.expect (t := .symbol .rightParen) ?_
    refine Takes.pushList fun A hA => ?_
    obtain ⟨⟨⟨hname, hhead⟩, hsize⟩, hscale⟩ := hA
    exact (showsAll_cons.2 ⟨hhead, showsAll_cons.2 ⟨hname, hsize.single⟩⟩).append hscale

/-- A type is read back. -/
theorem takes_typeName (type : TypeName) (hword : kindAt 0 rest ≠ .identifier false)
    (hparen : kindAt 0 rest ≠ .symbol .leftParen) :
    Takes source (fun _ => True) typeName type.pieces rest
      fun id A => Shows source A id type.datum := by
  have hsizes : kindAt 0 (type.sizes.pieces ++ rest) ≠ .identifier false := by
    cases type.sizes with
    | none => exact hword
    | one size => simp [Sizes.pieces]
    | two size scale => simp [Sizes.pieces]
  rw [typeName_eq]
  show Takes source _ _ ((type.first.piece :: type.more.map PlainName.piece) ++ type.sizes.pieces)
    rest _
  refine Takes.seq (takes_typeSpan type.first type.more hsizes) fun span => ?_
  refine Leads.know (fun A hA => hA.2) fun hslice => ?_
  refine Leads.push (d := .name type.text) ?_ fun name => ?_
  · show some (Datum.name (span.slice source)) = _
    rw [hslice]
    rfl
  · exact (takes_typeSizes name type hparen).weaken fun A hA => hA.2

/-! ### Conversions and cases -/

theorem Expr.reads_cast (h : e.Reads) (type : TypeName) : (Expr.cast e type).Reads := by
  refine reads_of_primary rfl (fun rest => ?_) fun source settings room rest hdepth _ => ?_
  · rw [Expr.pieces, List.cons_append, kindAt_zero_cons, kind_word]
    rfl
  · rw [primary]
    refine Leads.currentPiece fun t hkind _ _ => ?_
    rw [hkind, kind_word]
    show Leads source _ (Expression.cast _) _ rest _ _
    rw [Expression.cast]
    refine Leads.expect (t := .word .CAST) ?_
    refine Leads.expect (t := .symbol .leftParen) ?_
    refine Takes.seq (h.alone hdepth (weight_of_isLight (by simp; decide))) fun operand => ?_
    refine Leads.expect (t := .word .AS) ?_
    refine Takes.seq (takes_typeName type (by simp) (by simp)) fun typeId => ?_
    refine Leads.expect (t := .symbol .rightParen) ?_
    exact Takes.tagged fun A hA => showsAll_cons.2 ⟨hA.1.2, hA.2.single⟩

/-- The conditions and results of branches. -/
def Branches.pairs : Branches → List (Expr × Expr)
  | .last condition result _ => [(condition, result)]
  | .more condition result others => (condition, result) :: others.pairs

/-- What holds in no branch. -/
def Branches.otherwise : Branches → Option Expr
  | .last _ _ otherwise => otherwise
  | .more _ _ others => others.otherwise

/-- The pieces of one branch. -/
def branchPieces (b : Expr × Expr) : List Piece :=
  word .WHEN :: (b.1.pieces ++ (word .THEN :: b.2.pieces))

/-- The pieces of what holds in no branch. -/
def elsePieces (otherwise : Option Expr) : List Piece :=
  (piecesOfSome 0 otherwise).elim [] fun ps => word .ELSE :: ps

/-- The data of what holds in no branch. -/
def elseData (otherwise : Option Expr) : List Datum :=
  (datumOfSome otherwise).elim [] fun d => [.tagged .elseBranch [d]]

theorem Branches.pieces_eq (b : Branches) :
    b.pieces = b.pairs.flatMap branchPieces ++ elsePieces b.otherwise := by
  cases b with
  | last condition result otherwise =>
    simp [Branches.pieces, pairs, branchPieces, elsePieces, Branches.otherwise]
  | more condition result others =>
    simp [Branches.pieces, pairs, branchPieces, Branches.otherwise, others.pieces_eq]

theorem Branches.data_eq (b : Branches) :
    b.data = b.pairs.flatMap (fun p => [p.1.datum, p.2.datum]) ++ elseData b.otherwise := by
  cases b with
  | last condition result otherwise =>
    simp [Branches.data, pairs, elseData, Branches.otherwise]
  | more condition result others =>
    simp [Branches.data, pairs, Branches.otherwise, others.data_eq]

theorem Branches.depth_le : (b : Branches) → b.depth ≤ room →
    (∀ p ∈ b.pairs, p.1.depth < room ∧ p.2.depth < room) ∧ depthOfSome 0 b.otherwise ≤ room
  | .last condition result otherwise, h => by
    rw [Branches.depth] at h
    refine ⟨fun p hp => ?_, by rw [Branches.otherwise]; omega⟩
    obtain rfl := List.mem_singleton.1 hp
    show condition.depth < room ∧ result.depth < room
    omega
  | .more condition result others, h => by
    rw [Branches.depth] at h
    obtain ⟨hpairs, hotherwise⟩ := others.depth_le (by omega)
    refine ⟨fun p hp => ?_, hotherwise⟩
    rcases List.mem_cons.1 hp with rfl | hp
    · show condition.depth < room ∧ result.depth < room
      omega
    · exact hpairs p hp

/-- The branches of `CASE` are read back one by one. -/
theorem takes_caseBranches (pairs : List (Expr × Expr)) (hpairs : ∀ p ∈ pairs, p.1.Reads ∧ p.2.Reads)
    (hdepth : ∀ p ∈ pairs, p.1.depth < room ∧ p.2.depth < room)
    (hrest : isLight (kindAt 0 rest) = true) (hwhen : kindAt 0 rest ≠ .word .WHEN) :
    Takes source (fun _ => True) (iterate (caseBranch (contextOf settings room)) [])
      (pairs.flatMap branchPieces) rest
      fun ids A => ShowsAll source A ids (pairs.flatMap fun p => [p.1.datum, p.2.datum]) := by
  have hstart : Leads source (fun _ => True) (iterate (caseBranch (contextOf settings room)) []) []
      (pairs.flatMap branchPieces ++ rest)
      (fun ids A => ShowsAll source A ids
        (([] : List (Expr × Expr)).flatMap fun p => [p.1.datum, p.2.datum]))
      (iterate (caseBranch (contextOf settings room))) := Leads.here fun _ _ => showsAll_nil
  have hall := Leads.extendAll
    (P := fun done ids A => ShowsAll source A ids (done.flatMap fun p => [p.1.datum, p.2.datum]))
    [] pairs hstart ?_ fun p _ => List.cons_ne_nil _ _
  · refine Leads.close hall fun ids => ?_
    refine Leads.skip hwhen ?_
    exact Takes.done fun A hA => ⟨rfl, hA⟩
  · intro before p behind hdecomposed ids
    have hmem : p ∈ pairs := by rw [hdecomposed]; simp
    -- The next branch, or what follows the last one.
    have hlight : isLight (kindAt 0 (behind.flatMap branchPieces ++ rest)) = true := by
      cases behind with
      | nil => exact hrest
      | cons b behind => simp [branchPieces]; decide
    refine Leads.eat (t := .word .WHEN) ?_
    rw [if_pos rfl]
    refine Takes.seq ((hpairs p hmem).1.alone (hdepth p hmem).1
      (weight_of_isLight (by simp; decide))) fun condition => ?_
    refine Leads.expect (t := .word .THEN) ?_
    rw [← List.append_nil p.2.pieces]
    refine Takes.seq ((hpairs p hmem).2.alone (hdepth p hmem).2 (weight_of_isLight hlight))
      fun result => ?_
    refine Takes.done fun A hA => ⟨_, rfl, ?_⟩
    obtain ⟨⟨hids, hcondition⟩, hresult⟩ := hA
    rw [List.flatMap_append, List.flatMap_singleton]
    exact hids.append (showsAll_cons.2 ⟨hcondition, hresult.single⟩)

/-- What holds in no branch is read back. -/
theorem takes_caseElse (otherwise : Option Expr) (hreads : ∀ e ∈ otherwise, e.Reads)
    (hdepth : depthOfSome 0 otherwise ≤ room) (hrest : isLight (kindAt 0 rest) = true)
    (helse : kindAt 0 rest ≠ .word .ELSE) :
    Takes source (fun _ => True) (caseElse (contextOf settings room)) (elsePieces otherwise) rest
      fun ids A => ShowsAll source A ids (elseData otherwise) := by
  cases otherwise with
  | none =>
    refine (takes_behind_none helse).imp fun ids A h => ?_
    rw [h.1]
    exact showsAll_nil
  | some e =>
    refine Takes.behind (t := .word .ELSE) ?_
    show Takes source _ _ e.pieces rest _
    rw [← List.append_nil e.pieces]
    refine Takes.seq ((hreads e rfl).alone hdepth (weight_of_isLight hrest)) fun result => ?_
    refine Leads.tagged (fun A hA => hA.2.single) fun clause => ?_
    exact Takes.done fun A hA => hA.2.single

/-- The operand of `CASE` is read back; where there is none the first branch follows. -/
theorem takes_caseOperand (operand : Option Expr) (hreads : ∀ e ∈ operand, e.Reads)
    (hdepth : depthOfSome 0 operand ≤ room) (hrest : kindAt 0 rest = .word .WHEN) :
    Takes source (fun _ => True) (caseOperand (contextOf settings room))
      ((piecesOfSome 0 operand).getD []) rest
      fun ids A => ShowsAll source A ids (datumOfSome operand).toList := by
  refine Leads.at? ?_
  cases operand with
  | none =>
    have hfront : (kindAt 0 ((piecesOfSome 0 none).getD [] ++ rest) == (Terminal.word .WHEN).kind) =
        true := beq_iff_eq.2 hrest
    rw [hfront]
    exact Takes.done fun _ _ => showsAll_nil
  | some e =>
    have hfront : (kindAt 0 (e.pieces ++ rest) == (Terminal.word .WHEN).kind) = false := by
      refine beq_false_of_ne fun h => ?_
      have hstart := e.startsExpression rest
      rw [h] at hstart
      cases hstart
    show Leads source _ (if kindAt 0 (e.pieces ++ rest) == _ then _ else _) e.pieces rest _ _
    rw [hfront, if_neg Bool.false_ne_true, ← List.append_nil e.pieces]
    have hlight : isLight (kindAt 0 rest) = true := by rw [hrest]; decide
    refine Takes.seq ((hreads e rfl).alone hdepth (weight_of_isLight hlight)) fun id => ?_
    exact Takes.done fun A hA => hA.2.single

theorem Expr.reads_caseOf (operand : Option Expr) (branches : Branches)
    (hoperand : ∀ e ∈ operand, e.Reads)
    (hpairs : ∀ p ∈ branches.pairs, p.1.Reads ∧ p.2.Reads)
    (hotherwise : ∀ e ∈ branches.otherwise, e.Reads) : (Expr.caseOf operand branches).Reads := by
  refine reads_of_primary rfl (fun rest => ?_) fun source settings room rest hdepth _ => ?_
  · rw [Expr.pieces, List.cons_append, kindAt_zero_cons, kind_word]
    rfl
  rw [Expr.depth] at hdepth
  obtain ⟨hpairsDepth, hotherwiseDepth⟩ :=
    branches.depth_le (Nat.le_trans (Nat.le_max_right _ _) hdepth)
  have hwhen : ∀ ps, kindAt 0 (branches.pairs.flatMap branchPieces ++ ps) = .word .WHEN := by
    intro ps
    cases branches with
    | last condition result otherwise => exact kind_word .WHEN
    | more condition result others => exact kind_word .WHEN
  have hbehind : kindAt 0 (elsePieces branches.otherwise ++ [word .END] ++ rest) = .word .ELSE ∨
      kindAt 0 (elsePieces branches.otherwise ++ [word .END] ++ rest) = .word .END := by
    cases branches.otherwise with
    | none => exact .inr (kind_word .END)
    | some e => exact .inl (kind_word .ELSE)
  have hpieces : (Expr.caseOf operand branches).pieces = word .CASE ::
      ((piecesOfSome 0 operand).getD [] ++ (branches.pairs.flatMap branchPieces ++
        (elsePieces branches.otherwise ++ [word .END]))) := by
    rw [Expr.pieces, Branches.pieces_eq, List.append_assoc]
  rw [primary, hpieces, Expr.datum, Branches.data_eq]
  refine Leads.currentPiece fun t hkind _ _ => ?_
  rw [hkind, kind_word]
  show Leads source _ (caseExpression _) _ rest _ _
  rw [caseExpression_eq]
  refine Leads.expect (t := .word .CASE) ?_
  refine Leads.pushTag fun head => ?_
  refine Takes.seq (takes_caseOperand operand hoperand (Nat.le_trans (Nat.le_max_left _ _) hdepth)
    (by rw [List.append_assoc]; exact hwhen _)) fun operandIds => ?_
  refine Leads.at? ?_
  rw [List.append_assoc, hwhen, require, if_pos (by rfl), pure_bind]
  refine Takes.seq (takes_caseBranches branches.pairs hpairs hpairsDepth ?_ ?_) fun branchIds => ?_
  · rcases hbehind with h | h <;> (rw [h]; decide)
  · rcases hbehind with h | h <;> (rw [h]; decide)
  refine Takes.seq (takes_caseElse branches.otherwise hotherwise hotherwiseDepth
    (by simp; decide) (by simp)) fun otherwiseIds => ?_
  refine Leads.expect (t := .word .END) ?_
  refine Takes.pushList fun A hA => ?_
  obtain ⟨⟨⟨⟨_, hhead⟩, hoperand⟩, hbranches⟩, hotherwise⟩ := hA
  rw [← List.append_assoc]
  exact showsAll_cons.2 ⟨hhead, (hoperand.append hbranches).append hotherwise⟩

end TaggedSql
