import TaggedSql.Grammar.Operator
import TaggedSql.Proofs.Printing.Numeral
import TaggedSql.Proofs.Tree.Datum

/-!
# The syntax of expressions

Expressions without queries, as a program would build them: what is no expression cannot be written
down. An expression has a printed text with the fewest parentheses, the datum that the tree of the
text has to show, and the number of levels that reading it needs.

* `Expr`: expressions;
* `Expr.level`: how tightly the outermost operator binds, as a power; primaries bind tightest;
* `Expr.pieces`, `Expr.piecesAt`: the printed pieces; those of a child stand in parentheses exactly
  where its level is lower than its position requires;
* `Expr.datum`: what the tree shows;
* `Expr.depth`: the levels that the children need.
-/

namespace TaggedSql

open Piece

/-! ### Atoms, types and operators -/

/-- A natural number below `2 ^ 63`. -/
structure Magnitude where
  value : Nat
  lt : value < 2 ^ 63

/-- The piece of a natural number below `2 ^ 63`. -/
def Magnitude.piece (n : Magnitude) : Piece := Piece.integer n.value n.lt

/-- The datum of a natural number below `2 ^ 63`. -/
def Magnitude.datum (n : Magnitude) : Datum := .integer (Int64.ofNat n.value)

/-- The hexadecimal digits of a blob, two for each byte. -/
structure BlobDigits where
  digits : List Char
  isHex : ∀ d ∈ digits, Text.isHexDigit d = true
  even : digits.length % 2 = 0

/-- The name of a parameter, which may be a reserved word. -/
structure ParameterName where
  text : List Char
  isWord : Lexeme.isWord text = true

/-- A word that stands for a value. -/
structure Constant where
  word : Word
  tag : Tag
  constant : (Kind.word word).constant? = some tag

/-- A prefix operator and the power of its operand. -/
structure PrefixOperator where
  symbol : Terminal
  tag : Tag
  power : Nat
  unary : symbol.kind.unary? = some (tag, power)

/-- An infix operator with two operands, perhaps negated. -/
structure InfixOperator where
  negated : Bool
  symbol : Terminal
  tag : Tag
  power : Nat
  binary : symbol.kind.binary? = some (.plain tag, power)
  negatable : negated = true → symbol.kind.isNegatable = true

/-- The sizes of a type. -/
inductive Sizes where
  | none
  | one (size : Magnitude)
  | two (size scale : Magnitude)

/-- The name of a type, of one or more words, with its sizes. -/
structure TypeName where
  first : PlainName
  more : List PlainName
  sizes : Sizes

/-- The word before the arguments of a call. -/
inductive CallMark where
  | none
  | all
  | distinct

/-- The name of a plain function: it is quoted, or no aggregate has it. -/
structure FunctionName where
  name : Name
  isPlain : name.isQuoted = true ∨ Tag.aggregate? name.piece.body = Option.none

/-- The name of an aggregate. -/
structure AggregateName where
  name : PlainName
  tag : Tag
  isAggregate : Tag.aggregate? name.text = some tag

/-- Whether an aggregate is the least or the greatest of its values; of several arguments these are
plain functions. -/
def AggregateName.isExtremum (a : AggregateName) : Bool := a.tag == .min || a.tag == .max

/-! ### Expressions -/

mutual

/-- An expression without queries. -/
inductive Expr where
  | integer (n : Magnitude)
  | float (l : FloatLiteral)
  | string (content : List Char)
  | blob (b : BlobDigits)
  /-- A name, perhaps behind the names that qualify it. -/
  | name (first : Name) (more : List Name)
  | parameter (name : Option ParameterName)
  | constant (c : Constant)
  | prefixed (operator : PrefixOperator) (operand : Expr)
  | infixed (operator : InfixOperator) (left right : Expr)
  | isSame (negated : Bool) (left right : Expr)
  | inList (negated : Bool) (left : Expr) (items : List Expr)
  | between (negated : Bool) (left low high : Expr)
  | like (negated : Bool) (left pattern : Expr) (escape : Option Expr)
  | caseOf (operand : Option Expr) (branches : Branches)
  | cast (operand : Expr) (type : TypeName)
  | function (name : FunctionName) (mark : CallMark) (arguments : List Expr)
  /-- The least or the greatest of several values, a plain function. -/
  | extremum (name : AggregateName) (h : name.isExtremum = true) (mark : CallMark)
      (first second : Expr) (more : List Expr)
  /-- An aggregate other than the two extrema. -/
  | aggregate (name : AggregateName) (h : name.isExtremum = false) (mark : CallMark)
      (arguments : List Expr) (filter : Option Expr)
  /-- The least or the greatest value of a column, an aggregate. -/
  | columnExtremum (name : AggregateName) (h : name.isExtremum = true) (mark : CallMark)
      (argument : Option Expr) (filter : Option Expr)
  /-- The number of rows. -/
  | countRows (name : PlainName) (h : Tag.aggregate? name.text = some .count)
      (filter : Option Expr)

/-- The branches of `CASE`, at least one, and perhaps what holds in no branch. -/
inductive Branches where
  | last (condition result : Expr) (otherwise : Option Expr)
  | more (condition result : Expr) (others : Branches)

end

namespace Expr

/-- How tightly the outermost operator binds; primaries bind tightest. -/
def level : Expr → Nat
  | .prefixed operator _ => operator.power
  | .infixed operator _ _ => operator.power
  | .isSame .. | .inList .. | .between .. | .like .. => 7
  | _ => 19

end Expr

/-! ### Pieces -/

/-- Pieces, in parentheses if their level is lower than their position requires. -/
def Piece.guarded (position level : Nat) (ps : List Piece) : List Piece :=
  if level < position then symbol .leftParen :: (ps ++ [symbol .rightParen]) else ps

/-- Items with commas between neighbours. -/
def Piece.commas (items : List (List Piece)) : List Piece := separated (.symbol .comma) items

/-- The word `NOT` before a predicate that is negated. -/
def Piece.negation (negated : Bool) : List Piece := if negated then [word .NOT] else []

/-- The pieces of an infix operator. -/
def InfixOperator.pieces (o : InfixOperator) : List Piece :=
  negation o.negated ++ [terminal o.symbol]

/-- The pieces of sizes. -/
def Sizes.pieces : Sizes → List Piece
  | .none => []
  | .one size => [symbol .leftParen, size.piece, symbol .rightParen]
  | .two size scale =>
    [symbol .leftParen, size.piece, symbol .comma, scale.piece, symbol .rightParen]

/-- The pieces of a type. -/
def TypeName.pieces (t : TypeName) : List Piece :=
  t.first.piece :: (t.more.map PlainName.piece ++ t.sizes.pieces)

/-- The pieces of the word before arguments. -/
def CallMark.pieces : CallMark → List Piece
  | .none => []
  | .all => [word .ALL]
  | .distinct => [word .DISTINCT]

/-- The word before the condition of an aggregate, which is not reserved. -/
def PlainName.filter : PlainName := ⟨['F', 'I', 'L', 'T', 'E', 'R'], by decide, by decide⟩

/-- The pieces of the condition of an aggregate. -/
def Piece.filter (condition : Option (List Piece)) : List Piece :=
  condition.elim [] fun ps =>
    PlainName.filter.piece :: symbol .leftParen :: word .WHERE :: (ps ++ [symbol .rightParen])

/-- The pieces of a call. -/
def Piece.call (name : Piece) (mark : CallMark) (arguments : List (List Piece)) : List Piece :=
  name :: symbol .leftParen :: (mark.pieces ++ (commas arguments ++ [symbol .rightParen]))

mutual

/-- The pieces of an expression. -/
def Expr.pieces : Expr → List Piece
  | .integer n => [n.piece]
  | .float l => [Piece.float l]
  | .string content => [Piece.string content]
  | .blob b => [Piece.blob b.digits b.isHex b.even]
  | .name first more => separated (.symbol .dot) ((first :: more).map fun n => [n.piece])
  | .parameter none => [unnamed]
  | .parameter (some n) => [named n.text n.isWord]
  | .constant c => [word c.word]
  | .prefixed operator e => terminal operator.symbol :: guarded operator.power e.level e.pieces
  | .infixed operator left right =>
    guarded operator.power left.level left.pieces ++
      (operator.pieces ++ guarded (operator.power + 1) right.level right.pieces)
  | .isSame negated left right =>
    guarded 7 left.level left.pieces ++
      (word .IS :: (negation negated ++ guarded 8 right.level right.pieces))
  | .inList negated left items =>
    guarded 7 left.level left.pieces ++
      (negation negated ++ (word .IN :: symbol .leftParen ::
        (commas (Expr.piecesOfAll items) ++ [symbol .rightParen])))
  | .between negated left low high =>
    guarded 7 left.level left.pieces ++
      (negation negated ++ (word .BETWEEN :: (guarded 8 low.level low.pieces ++
        (word .AND :: guarded 8 high.level high.pieces))))
  | .like negated left pattern escape =>
    guarded 7 left.level left.pieces ++
      (negation negated ++ (word .LIKE :: (guarded 8 pattern.level pattern.pieces ++
        (Expr.piecesOfSome 8 escape).elim [] fun ps => word .ESCAPE :: ps)))
  | .caseOf operand branches =>
    word .CASE :: ((Expr.piecesOfSome 0 operand).getD [] ++ (branches.pieces ++ [word .END]))
  | .cast e type =>
    word .CAST :: symbol .leftParen ::
      (e.pieces ++ (word .AS :: (type.pieces ++ [symbol .rightParen])))
  | .function name mark arguments =>
    Piece.call name.name.piece mark (Expr.piecesOfAll arguments)
  | .extremum name _ mark first second more =>
    Piece.call name.name.piece mark (first.pieces :: second.pieces :: Expr.piecesOfAll more)
  | .aggregate name _ mark arguments filter =>
    Piece.call name.name.piece mark (Expr.piecesOfAll arguments) ++
      Piece.filter (Expr.piecesOfSome 0 filter)
  | .columnExtremum name _ mark argument filter =>
    Piece.call name.name.piece mark (Expr.piecesOfSome 0 argument).toList ++
      Piece.filter (Expr.piecesOfSome 0 filter)
  | .countRows name _ filter =>
    [name.piece, symbol .leftParen, symbol .star, symbol .rightParen] ++
      Piece.filter (Expr.piecesOfSome 0 filter)

/-- The pieces of branches. -/
def Branches.pieces : Branches → List Piece
  | .last condition result otherwise =>
    word .WHEN :: (condition.pieces ++ (word .THEN :: (result.pieces ++
      (Expr.piecesOfSome 0 otherwise).elim [] fun ps => word .ELSE :: ps)))
  | .more condition result others =>
    word .WHEN :: (condition.pieces ++ (word .THEN :: (result.pieces ++ others.pieces)))

/-- The pieces of each of several expressions. -/
def Expr.piecesOfAll : List Expr → List (List Piece)
  | [] => []
  | e :: es => e.pieces :: Expr.piecesOfAll es

/-- The pieces of an expression that may be missing, at a position. -/
def Expr.piecesOfSome (position : Nat) : Option Expr → Option (List Piece)
  | none => none
  | some e => some (guarded position e.level e.pieces)

end

/-- The pieces of an expression at a position. -/
def Expr.piecesAt (position : Nat) (e : Expr) : List Piece := guarded position e.level e.pieces

/-! ### Data -/

/-- A datum, negated or not. -/
def Datum.negated (negated : Bool) (d : Datum) : Datum :=
  if negated then .tagged .not [d] else d

/-- The datum of a name, perhaps behind the names that qualify it. -/
def Datum.qualified (first : Name) : List Name → Datum
  | [] => .name first.text
  | more => .list ((first :: more).map fun n => .name n.text)

/-- The data of sizes. -/
def Sizes.data : Sizes → List Datum
  | .none => []
  | .one size => [size.datum]
  | .two size scale => [size.datum, scale.datum]

/-- The words of a type with one space between neighbours. -/
def TypeName.text (t : TypeName) : String :=
  String.ofList (Text.spaced (t.first.text :: t.more.map PlainName.text))

/-- The datum of a type. -/
def TypeName.datum (t : TypeName) : Datum :=
  match t.sizes with
  | .none => .name t.text
  | sizes => .list (.tag .sizedType :: .name t.text :: sizes.data)

/-- The data of the word before arguments; `ALL` leaves no trace. -/
def CallMark.data : CallMark → List Datum
  | .none | .all => []
  | .distinct => [.tag .distinct]

/-- The data of a call behind its name. -/
def Datum.call (head : Tag) (name : Datum) (mark : CallMark) (arguments : List Datum)
    (filter : List Datum) : Datum :=
  .list ([.tag head, name] ++ mark.data ++ [.list arguments] ++ filter)

/-- The data of the condition of an aggregate. -/
def Datum.filter (condition : Option Datum) : List Datum :=
  condition.elim [] fun d => [.tagged .whereClause [d]]

mutual

/-- What the tree of an expression shows. -/
def Expr.datum : Expr → Datum
  | .integer n => n.datum
  | .float l => .float l.value
  | .string content => .string (String.ofList (Text.double '\x27' content))
  | .blob b => .blob (String.ofList b.digits)
  | .name first more => .qualified first more
  | .parameter none => .tagged .parameter []
  | .parameter (some n) => .tagged .parameter [.name (String.ofList n.text)]
  | .constant c => .tag c.tag
  | .prefixed operator e => .tagged operator.tag [e.datum]
  | .infixed operator left right =>
    .negated operator.negated (.tagged operator.tag [left.datum, right.datum])
  | .isSame negated left right => .negated negated (.tagged .isSame [left.datum, right.datum])
  | .inList negated left items =>
    .negated negated (.tagged .inList [left.datum, .list (Expr.dataOfAll items)])
  | .between negated left low high =>
    .negated negated (.tagged .between [left.datum, low.datum, high.datum])
  | .like negated left pattern escape =>
    .negated negated
      (.tagged .like (left.datum :: pattern.datum :: (Expr.datumOfSome escape).toList))
  | .caseOf operand branches =>
    .tagged .caseOf ((Expr.datumOfSome operand).toList ++ branches.data)
  | .cast e type => .tagged .cast [e.datum, type.datum]
  | .function name mark arguments =>
    .call .function (.name name.name.text) mark (Expr.dataOfAll arguments) []
  | .extremum name _ mark first second more =>
    .call .function (.name (String.ofList name.name.text)) mark
      (first.datum :: second.datum :: Expr.dataOfAll more) []
  | .aggregate name _ mark arguments filter =>
    .call .aggregateFunction (.tag name.tag) mark (Expr.dataOfAll arguments)
      (Datum.filter (Expr.datumOfSome filter))
  | .columnExtremum name _ mark argument filter =>
    .call .aggregateFunction (.tag name.tag) mark (Expr.datumOfSome argument).toList
      (Datum.filter (Expr.datumOfSome filter))
  | .countRows _ _ filter =>
    .call .aggregateFunction (.tag .countStar) .none [] (Datum.filter (Expr.datumOfSome filter))

/-- What the trees of branches show. -/
def Branches.data : Branches → List Datum
  | .last condition result otherwise =>
    condition.datum :: result.datum ::
      (Expr.datumOfSome otherwise).elim [] fun d => [.tagged .elseBranch [d]]
  | .more condition result others => condition.datum :: result.datum :: others.data

/-- What the trees of several expressions show. -/
def Expr.dataOfAll : List Expr → List Datum
  | [] => []
  | e :: es => e.datum :: Expr.dataOfAll es

/-- What the tree of an expression that may be missing shows. -/
def Expr.datumOfSome : Option Expr → Option Datum
  | none => none
  | some e => some e.datum

end

/-! ### Levels of nesting -/

/-- The levels that an expression needs below the one on which it is read, if it is printed at a
position: parentheses need a level of their own. -/
def Expr.guardedDepth (position level depth : Nat) : Nat :=
  if level < position then depth + 1 else depth

mutual

/-- The levels that the children of an expression need. -/
def Expr.depth : Expr → Nat
  | .prefixed operator e => Expr.guardedDepth operator.power e.level e.depth + 1
  | .infixed operator left right =>
    -- The left operand is read on the level of the whole, the right one on the next.
    max (Expr.guardedDepth operator.power left.level left.depth)
      (Expr.guardedDepth (operator.power + 1) right.level right.depth + 1)
  | .isSame _ left right =>
    max (Expr.guardedDepth 7 left.level left.depth) (Expr.guardedDepth 8 right.level right.depth + 1)
  | .inList _ left items => max (Expr.guardedDepth 7 left.level left.depth) (Expr.depthOfAll items)
  | .between _ left low high =>
    max (Expr.guardedDepth 7 left.level left.depth)
      (max (Expr.guardedDepth 8 low.level low.depth + 1) (Expr.guardedDepth 8 high.level high.depth + 1))
  | .like _ left pattern escape =>
    max (Expr.guardedDepth 7 left.level left.depth)
      (max (Expr.guardedDepth 8 pattern.level pattern.depth + 1) (Expr.depthOfSome 8 escape))
  | .caseOf operand branches => max (Expr.depthOfSome 0 operand) branches.depth
  | .cast e _ => e.depth + 1
  | .function _ _ arguments => Expr.depthOfAll arguments
  | .extremum _ _ _ first second more =>
    max (max (first.depth + 1) (second.depth + 1)) (Expr.depthOfAll more)
  | .aggregate _ _ _ arguments filter =>
    max (Expr.depthOfAll arguments) (Expr.depthOfSome 0 filter)
  | .columnExtremum _ _ _ argument filter =>
    max (Expr.depthOfSome 0 argument) (Expr.depthOfSome 0 filter)
  | .countRows _ _ filter => Expr.depthOfSome 0 filter
  | _ => 0

/-- The levels that branches need. -/
def Branches.depth : Branches → Nat
  | .last condition result otherwise =>
    max (max (condition.depth + 1) (result.depth + 1)) (Expr.depthOfSome 0 otherwise)
  | .more condition result others =>
    max (max (condition.depth + 1) (result.depth + 1)) others.depth

/-- The levels that several expressions need. -/
def Expr.depthOfAll : List Expr → Nat
  | [] => 0
  | e :: es => max (e.depth + 1) (Expr.depthOfAll es)

/-- The levels that an expression that may be missing needs at a position. -/
def Expr.depthOfSome (position : Nat) : Option Expr → Nat
  | none => 0
  | some e => Expr.guardedDepth position e.level e.depth + 1

end

namespace Expr

/-! ### Several expressions -/

theorem piecesOfAll_eq_map (es : List Expr) : piecesOfAll es = es.map pieces := by
  induction es with
  | nil => rfl
  | cons e es ih => rw [piecesOfAll, ih, List.map_cons]

theorem dataOfAll_eq_map (es : List Expr) : dataOfAll es = es.map datum := by
  induction es with
  | nil => rfl
  | cons e es ih => rw [dataOfAll, ih, List.map_cons]

theorem depth_lt_depthOfAll {e : Expr} {es : List Expr} (h : e ∈ es) :
    e.depth < depthOfAll es := by
  induction es with
  | nil => cases h
  | cons x es ih =>
    rw [depthOfAll]
    rcases List.mem_cons.1 h with rfl | h
    · omega
    · have := ih h
      omega

/-! ### Depth and length -/

theorem guardedDepth_lt (position level : Nat) {depth : Nat} {ps : List Piece}
    (h : depth < ps.length) :
    guardedDepth position level depth < (guarded position level ps).length := by
  rw [guardedDepth, guarded]
  split
  next => simp only [List.length_cons, List.length_append, List.length_nil]; omega
  next => exact h

theorem length_commas_cons (ps : List Piece) (items : List (List Piece)) :
    ps.length + (commas items).length ≤ (commas (ps :: items)).length := by
  cases items with
  | nil => simp [commas, separated]
  | cons qs items =>
    simp only [commas, separated, List.flatMap_cons, List.length_append, List.length_cons]
    omega

end Expr

open TaggedSql.Expr

mutual

/-- An expression needs fewer levels than it has pieces. -/
theorem Expr.depth_lt_length : (e : Expr) → e.depth < e.pieces.length
  | .integer _ | .float _ | .string _ | .blob _ | .parameter none | .parameter (some _)
  | .constant _ => Nat.zero_lt_one
  | .name first more => by simp [Expr.depth, Expr.pieces, separated]
  | .prefixed operator e => by
    have he := guardedDepth_lt operator.power e.level e.depth_lt_length
    simp only [Expr.depth, Expr.pieces, List.length_cons]
    omega
  | .infixed operator left right => by
    have hleft := guardedDepth_lt operator.power left.level left.depth_lt_length
    have hright := guardedDepth_lt (operator.power + 1) right.level right.depth_lt_length
    simp only [Expr.depth, Expr.pieces, InfixOperator.pieces, List.length_append, List.length_cons]
    omega
  | .isSame negated left right => by
    have hleft := guardedDepth_lt 7 left.level left.depth_lt_length
    have hright := guardedDepth_lt 8 right.level right.depth_lt_length
    simp only [Expr.depth, Expr.pieces, List.length_append, List.length_cons]
    omega
  | .inList negated left items => by
    have hleft := guardedDepth_lt 7 left.level left.depth_lt_length
    have hitems := Expr.depthOfAll_le_length items
    simp only [Expr.depth, Expr.pieces, List.length_append, List.length_cons]
    omega
  | .between negated left low high => by
    have hleft := guardedDepth_lt 7 left.level left.depth_lt_length
    have hlow := guardedDepth_lt 8 low.level low.depth_lt_length
    have hhigh := guardedDepth_lt 8 high.level high.depth_lt_length
    simp only [Expr.depth, Expr.pieces, List.length_append, List.length_cons]
    omega
  | .like negated left pattern escape => by
    have hleft := guardedDepth_lt 7 left.level left.depth_lt_length
    have hpattern := guardedDepth_lt 8 pattern.level pattern.depth_lt_length
    have hescape := Expr.depthOfSome_le_length 8 escape
    simp only [Expr.depth, Expr.pieces, List.length_append, List.length_cons]
    cases h : piecesOfSome 8 escape with
    | none =>
      rw [h] at hescape
      simp only [Option.elim_none, List.length_nil] at hescape ⊢
      omega
    | some ps =>
      rw [h] at hescape
      simp only [Option.elim_some, List.length_cons] at hescape ⊢
      omega
  | .caseOf operand branches => by
    have hoperand := Expr.depthOfSome_le_length 0 operand
    have hbranches := branches.depth_lt_length
    simp only [Expr.depth, Expr.pieces, List.length_append, List.length_cons]
    cases h : piecesOfSome 0 operand with
    | none =>
      rw [h] at hoperand
      simp only [Option.elim_none] at hoperand
      omega
    | some ps =>
      rw [h] at hoperand
      simp only [Option.elim_some, Option.getD_some] at hoperand ⊢
      omega
  | .cast e type => by
    have he := e.depth_lt_length
    simp only [Expr.depth, Expr.pieces, List.length_append, List.length_cons]
    omega
  | .function callee mark arguments => by
    have harguments := Expr.depthOfAll_le_length arguments
    simp only [Expr.depth, Expr.pieces, Piece.call, List.length_append, List.length_cons]
    omega
  | .extremum callee _ mark first second more => by
    have hfirst := first.depth_lt_length
    have hsecond := second.depth_lt_length
    have hmore := Expr.depthOfAll_le_length more
    have hall := length_commas_cons first.pieces (second.pieces :: piecesOfAll more)
    have htail := length_commas_cons second.pieces (piecesOfAll more)
    simp only [Expr.depth, Expr.pieces, Piece.call, List.length_append, List.length_cons]
    omega
  | .aggregate callee _ mark arguments filter => by
    have harguments := Expr.depthOfAll_le_length arguments
    have hfilter := Expr.depthOfSome_le_filter filter
    simp only [Expr.depth, Expr.pieces, Piece.call, List.length_append, List.length_cons]
    omega
  | .columnExtremum callee _ mark argument filter => by
    have hargument := Expr.depthOfSome_le_length 0 argument
    have hfilter := Expr.depthOfSome_le_filter filter
    simp only [Expr.depth, Expr.pieces, Piece.call, List.length_append, List.length_cons]
    cases h : piecesOfSome 0 argument with
    | none =>
      rw [h] at hargument
      simp only [Option.elim_none] at hargument
      omega
    | some ps =>
      rw [h] at hargument
      simp only [Option.elim_some, Option.toList_some, commas, separated, List.flatMap_nil,
        List.append_nil] at hargument ⊢
      omega
  | .countRows callee _ filter => by
    have hfilter := Expr.depthOfSome_le_filter filter
    simp only [Expr.depth, Expr.pieces, List.length_append, List.length_cons]
    omega

theorem Branches.depth_lt_length : (b : Branches) → b.depth < b.pieces.length
  | .last condition result otherwise => by
    have hcondition := condition.depth_lt_length
    have hresult := result.depth_lt_length
    have hotherwise := Expr.depthOfSome_le_length 0 otherwise
    simp only [Branches.depth, Branches.pieces, List.length_append, List.length_cons]
    cases h : piecesOfSome 0 otherwise with
    | none =>
      rw [h] at hotherwise
      simp only [Option.elim_none] at hotherwise
      omega
    | some ps =>
      rw [h] at hotherwise
      simp only [Option.elim_some, List.length_cons] at hotherwise ⊢
      omega
  | .more condition result others => by
    have hcondition := condition.depth_lt_length
    have hresult := result.depth_lt_length
    have hothers := others.depth_lt_length
    simp only [Branches.depth, Branches.pieces, List.length_append, List.length_cons]
    omega

theorem Expr.depthOfAll_le_length : (es : List Expr) →
    depthOfAll es ≤ (commas (piecesOfAll es)).length
  | [] => Nat.zero_le _
  | e :: es => by
    have he := e.depth_lt_length
    have hes := Expr.depthOfAll_le_length es
    have hcommas := length_commas_cons e.pieces (piecesOfAll es)
    rw [depthOfAll, piecesOfAll]
    omega

theorem Expr.depthOfSome_le_length (position : Nat) : (o : Option Expr) →
    depthOfSome position o ≤ (piecesOfSome position o).elim 0 List.length
  | none => Nat.le_refl 0
  | some e => guardedDepth_lt position e.level e.depth_lt_length

theorem Expr.depthOfSome_le_filter (o : Option Expr) :
    depthOfSome 0 o ≤ (Piece.filter (piecesOfSome 0 o)).length := by
  have ho := Expr.depthOfSome_le_length 0 o
  cases h : piecesOfSome 0 o with
  | none => rw [h] at ho; exact Nat.le_trans ho (Nat.zero_le _)
  | some ps =>
    rw [h] at ho
    simp only [Option.elim_some, Piece.filter, List.length_cons, List.length_append] at ho ⊢
    omega

end

end TaggedSql
