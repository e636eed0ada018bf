import TaggedSql.Proofs.Token.Source
import TaggedSql.Proofs.Tree.Shape

/-!
# The operands of a form

What a form holds besides its tags: names, literals and aggregates, in the order in which a walk
from the first item of each list to the last meets them. The walk is compared with the tokens of a
source: each name and each literal among the tokens stands for one operand, in the same order.

* `Operand`: what the walk meets;
* `Form.walk`: the operands of a form;
* `Operand.Stands`: an operand stands for some tokens;
* `Spells`: operands, in their order, stand for the tokens from one place in a source to another.

Besides the operands the walk marks what decides how tokens are to be understood: a minus sign
before an operand or between two, the condition of an aggregate, and limits, which a source may give
in either order.
-/

namespace TaggedSql

/-- What a walk through a form meets. -/
inductive Operand where
  | name (s : Span)
  /-- The name of a type, which may have several words. -/
  | typeName (s : Span)
  | parameter (s : Span)
  | string (s : Span)
  | blob (s : Span)
  | integer (n : Int64)
  | float (x : Binary64)
  | aggregate (t : Tag)
  /-- The condition of an aggregate follows. -/
  | filter
  /-- A minus sign before its only operand. -/
  | sign
  /-- A minus sign between two operands. -/
  | subtract
  | limit (operands : List Operand)
  | offset (operands : List Operand)

namespace Form

mutual

/-- The operands of a form, from the first item of each list to the last. -/
def walk : Form → List Operand
  | .list items => walkList items
  | .tag _ => []
  | .integer n => [.integer n]
  | .float x => [.float x]
  | .name s => [.name s]
  | .string s => [.string s]
  | .blob s => [.blob s]

/-- The operands of a list. -/
def walkList : List Form → List Operand
  | [] => []
  | .tag t :: items => walkTagged t items
  | item :: items => walk item ++ walkAll items

/-- The operands of a list behind the tag that heads it. -/
def walkTagged : Tag → List Form → List Operand
  | .minus, [e] => .sign :: walk e
  | .minus, [l, r] => walk l ++ .subtract :: walk r
  | .limit, [e] => [.limit (walk e)]
  | .offset, [e] => [.offset (walk e)]
  | .parameter, [.name s] => [.parameter s]
  | .cast, [e, .name s] => walk e ++ [.typeName s]
  | .sizedType, .name s :: sizes => .typeName s :: walkAll sizes
  | .aggregateFunction, .tag t :: parts => .aggregate t :: walkCall parts
  | .createTable, [table, .list elements] => walk table ++ walkElements elements
  | _, [] => []
  | _, item :: items => walk item ++ walkAll items

/-- The operands of several forms. -/
def walkAll : List Form → List Operand
  | [] => []
  | item :: items => walk item ++ walkAll items

/-- The operands of an aggregate behind its tag; its condition is marked. -/
def walkCall : List Form → List Operand
  | [] => []
  | .list [.tag .whereClause, e] :: items => .filter :: walk e ++ walkCall items
  | item :: items => walk item ++ walkCall items

/-- The operands of the columns and constraints of a table; a name behind that of a column is its
type. -/
def walkElements : List Form → List Operand
  | [] => []
  | .list (.name s :: .name type :: parts) :: items =>
    .name s :: .typeName type :: (walkAll parts ++ walkElements items)
  | item :: items => walk item ++ walkElements items

end

/-- The operands of a type. -/
def walkType : Form → List Operand
  | .name s => [.typeName s]
  | f => walk f

end Form

/-! ### Operands and tokens -/

/-- Whether a token stands for nothing that a walk meets, neither for an operand nor for a mark. -/
def Kind.isSilent : Kind → Bool
  | .integer _ | .leastMagnitude | .float _ | .string | .blob | .identifier _ => false
  | .parameter true => false
  | .symbol .minus | .word .LIMIT | .word .OFFSET => false
  | .problem _ => false
  | _ => true

/-- An operand stands for tokens, before the tokens that follow them. -/
inductive Operand.Stands : Operand → List Token → List Token → Prop where
  | name {t : Token} {ts : List Token} (h : t.kind.isIdentifier = true) :
      Stands (.name t.span) [t] ts
  /-- The name of a type stands for all its words. -/
  | typeName {t : Token} {words ts : List Token}
      (h : ∀ w ∈ t :: words, w.kind = .identifier false) :
      Stands (.typeName ⟨t.span.start, Token.lastStop t.span.stop words⟩) (t :: words) ts
  | parameter {t : Token} {ts : List Token} (h : t.kind = .parameter true) :
      Stands (.parameter t.span) [t] ts
  | string {t : Token} {ts : List Token} (h : t.kind = .string) : Stands (.string t.span) [t] ts
  | blob {t : Token} {ts : List Token} (h : t.kind = .blob) : Stands (.blob t.span) [t] ts
  | integer {t : Token} {ts : List Token} {n : Int64} (h : t.kind = .integer n) :
      Stands (.integer n) [t] ts
  | float {t : Token} {ts : List Token} {x : Binary64} (h : t.kind = .float x) :
      Stands (.float x) [t] ts
  /-- The integer `2 ^ 63` is the least integer right behind a sign, and promoted elsewhere. -/
  | least {t u : Token} {ts : List Token} (ht : t.kind = .symbol .minus)
      (hu : u.kind = .leastMagnitude) : Stands (.integer Int64.minValue) [t, u] ts
  | promoted {t : Token} {ts : List Token} (h : t.kind = .leastMagnitude) :
      Stands (.float Binary64.twoPow63) [t] ts
  | sign {t : Token} {ts : List Token} (h : t.kind = .symbol .minus)
      (hts : ∀ u ∈ ts.head?, u.kind ≠ .leastMagnitude) : Stands .sign [t] ts
  | subtract {t : Token} {ts : List Token} (h : t.kind = .symbol .minus) : Stands .subtract [t] ts
  | aggregate {t : Token} {ts : List Token} {a : Tag} (h : t.kind = .identifier false)
      (ha : Tag.aggregate? t.text.toList = some a) : Stands (.aggregate a) [t] ts
  | countStar {t : Token} {ts : List Token} (h : t.kind = .identifier false)
      (ha : Tag.aggregate? t.text.toList = some .count) : Stands (.aggregate .countStar) [t] ts
  | filter {t : Token} {ts : List Token} (h : t.kind = .identifier false)
      (hfilter : t.text.toList.map Char.toLower = ['f', 'i', 'l', 't', 'e', 'r']) :
      Stands .filter [t] ts

/-- Operands stand for the tokens `ts` up to where the tokens `us` are left. -/
inductive Spells : List Operand → List Token → List Token → Prop where
  | done (ts : List Token) : Spells [] ts ts
  | silent {t : Token} {ts us : List Token} {w : List Operand} (ht : t.kind.isSilent = true)
      (h : Spells w ts us) : Spells w (t :: ts) us
  | operand {i : Operand} {xs ts us : List Token} {w : List Operand} (hi : i.Stands xs ts)
      (h : Spells w ts us) : Spells (i :: w) (xs ++ ts) us
  | limit {t : Token} {ts us vs : List Token} {count w : List Operand}
      (ht : t.kind = .word .LIMIT) (hcount : Spells count ts us) (h : Spells w us vs) :
      Spells (.limit count :: w) (t :: ts) vs
  | offset {t : Token} {ts us vs : List Token} {skipped w : List Operand}
      (ht : t.kind = .word .OFFSET) (hskipped : Spells skipped ts us) (h : Spells w us vs) :
      Spells (.offset skipped :: w) (t :: ts) vs
  /-- With a comma the offset comes before the limit. -/
  | swapped {t comma : Token} {ts us vs ws : List Token} {count skipped w : List Operand}
      (ht : t.kind = .word .LIMIT) (hskipped : Spells skipped ts (comma :: us))
      (hcomma : comma.kind = .symbol .comma) (hcount : Spells count us vs) (h : Spells w vs ws) :
      Spells (.limit count :: .offset skipped :: w) (t :: ts) ws

namespace Spells

theorem append {v w : List Operand} {ts us vs : List Token} (h : Spells w ts us)
    (h' : Spells v us vs) : Spells (w ++ v) ts vs := by
  induction h with
  | done => exact h'
  | silent ht _ ih => exact .silent ht (ih h')
  | operand hi _ ih => exact .operand hi (ih h')
  | limit ht hcount _ _ ih => exact .limit ht hcount (ih h')
  | offset ht hskipped _ _ ih => exact .offset ht hskipped (ih h')
  | swapped ht hskipped hcomma hcount _ _ _ ih => exact .swapped ht hskipped hcomma hcount (ih h')

theorem single {i : Operand} {xs ts : List Token} (h : i.Stands xs ts) :
    Spells [i] (xs ++ ts) ts := .operand h (.done ts)

/-- The tokens that are left end those that there were. -/
theorem suffix {w : List Operand} {ts us : List Token} (h : Spells w ts us) : us <:+ ts := by
  induction h with
  | done ts => exact List.suffix_rfl
  | silent _ _ ih => exact ih.trans (List.suffix_cons _ _)
  | operand _ _ ih => exact ih.trans (List.suffix_append _ _)
  | limit _ _ _ ihcount ih => exact (ih.trans ihcount).trans (List.suffix_cons _ _)
  | offset _ _ _ ihskipped ih => exact (ih.trans ihskipped).trans (List.suffix_cons _ _)
  | swapped _ _ _ _ _ ihskipped ihcount ih =>
    have hus := (List.suffix_cons _ _).trans ihskipped
    exact ((ih.trans ihcount).trans hus).trans (List.suffix_cons _ _)

end Spells

/-! ### Walks -/

/-- Whether the items of a list that the tag heads are walked one after the other. -/
def Tag.isPlain : Tag → Bool
  | .minus | .limit | .offset | .parameter | .cast | .sizedType | .aggregateFunction
  | .createTable => false
  | _ => true

namespace Form

@[simp]
theorem walk_tag (t : Tag) : walk (.tag t) = [] := rfl

@[simp]
theorem walk_name (s : Span) : walk (.name s) = [.name s] := rfl

@[simp]
theorem walkAll_nil : walkAll [] = [] := rfl

@[simp]
theorem walkAll_cons (f : Form) (fs : List Form) : walkAll (f :: fs) = walk f ++ walkAll fs := rfl

@[simp]
theorem walkAll_append (fs gs : List Form) : walkAll (fs ++ gs) = walkAll fs ++ walkAll gs := by
  induction fs with
  | nil => rfl
  | cons f fs ih => rw [List.cons_append, walkAll_cons, walkAll_cons, ih, List.append_assoc]

theorem walkAll_eq_flatMap (fs : List Form) : walkAll fs = fs.flatMap walk := by
  induction fs with
  | nil => rfl
  | cons f fs ih => rw [walkAll_cons, List.flatMap_cons, ih]

theorem walkAll_mark {ts : List Tag} {mark : List Form} (h : Mark ts mark) : walkAll mark = [] := by
  cases h with
  | absent => rfl
  | present => rfl

/-- The items behind a plain tag are walked one after the other. -/
@[simp]
theorem walk_plain {t : Tag} (h : t.isPlain = true) (items : List Form) :
    walk (.list (.tag t :: items)) = walkAll items := by
  show walkTagged t items = _
  unfold walkTagged
  split
  all_goals first | rfl | cases h

/-- A list is walked from item to item, unless a tag with its own way heads it. -/
theorem walk_items {P : Form → Prop} {fs : List Form}
    (hP : ∀ t, P (.tag t) → t.isPlain = true) (h : ∀ f ∈ fs, P f) : walk (.list fs) = walkAll fs := by
  cases fs with
  | nil => rfl
  | cons f fs =>
    cases f with
    | tag t => exact walk_plain (hP t (h _ List.mem_cons_self)) fs
    | _ => rfl

theorem isPlain_of_isExpression {t : Tag} (h : IsExpression (.tag t)) : t.isPlain = true := by
  cases h with
  | constant h =>
    revert t
    decide

theorem isPlain_of_isColumn {t : Tag} (h : IsColumn (.tag t)) : t.isPlain = true := by
  cases h with
  | all => rfl
  | expression h =>
    cases h with
    | plain h => exact isPlain_of_isExpression h

theorem isPlain_of_isTerm {t : Tag} (h : IsTerm (.tag t)) : t.isPlain = true := by
  cases h with
  | plain h => exact isPlain_of_isExpression h

/-- The operands of expressions in a list. -/
theorem walk_expressions {es : List Form} (h : ∀ e ∈ es, IsExpression e) :
    walk (.list es) = walkAll es := walk_items (fun _ => isPlain_of_isExpression) h

/-- The operands of the items of a chain of cores, with or without further items. -/
theorem walk_chain_append {parts : List Form} (h : IsChain parts) (items : List Form) :
    walk (.list (parts ++ items)) = walkAll (parts ++ items) := by
  cases h with
  | core h =>
    cases h with
    | select => exact walk_plain rfl _
    | values => exact walk_plain rfl _
  | compound h =>
    have hplain : ∀ t ∈ setTags, t.isPlain = true := by decide
    exact walk_plain (hplain _ h) _

theorem walk_chain {parts : List Form} (h : IsChain parts) :
    walk (.list parts) = walkAll parts := by
  have hwalk := walk_chain_append h []
  rwa [List.append_nil] at hwalk

/-! ### Operators -/

/-- How the sign of a prefix operator is marked. -/
def signOf : Tag → List Operand
  | .minus => [.sign]
  | _ => []

/-- How the sign of a binary operator is marked. -/
def subtractOf : Tag → List Operand
  | .minus => [.subtract]
  | _ => []

theorem walk_unary {t : Tag} (h : t ∈ unaryTags) (e : Form) :
    walk (.list [.tag t, e]) = signOf t ++ walk e := by
  by_cases ht : t = .minus
  · rw [ht]
    rfl
  · have hplain : ∀ t ∈ unaryTags, t ≠ .minus → t.isPlain = true ∧ signOf t = [] := by decide
    rw [walk_plain (hplain t h ht).1, (hplain t h ht).2]
    simp

theorem walk_binary {t : Tag} (h : t ∈ binaryTags) (l r : Form) :
    walk (.list [.tag t, l, r]) = walk l ++ (subtractOf t ++ walk r) := by
  by_cases ht : t = .minus
  · rw [ht]
    rfl
  · have hplain : ∀ t ∈ binaryTags, t ≠ .minus → t.isPlain = true ∧ subtractOf t = [] := by decide
    rw [walk_plain (hplain t h ht).1, (hplain t h ht).2]
    simp

/-! ### Types, calls and tables -/

theorem walk_cast (e : Form) {type : Form} (h : IsType type) :
    walk (.list [.tag .cast, e, type]) = walk e ++ walkType type := by
  cases h with
  | plain s => rfl
  | sized s n => rfl
  | scaled s n m => rfl

/-- Only the condition of an aggregate is marked. -/
theorem walkCall_cons_of_ne {f : Form} (h : ∀ e, f ≠ .list [.tag .whereClause, e])
    (fs : List Form) : walkCall (f :: fs) = walk f ++ walkCall fs := by
  rw [walkCall]
  exact h

theorem walkCall_append (fs gs : List Form) : walkCall (fs ++ gs) = walkCall fs ++ walkCall gs := by
  induction fs with
  | nil => rfl
  | cons f fs ih =>
    rw [List.cons_append]
    by_cases h : ∃ e, f = .list [.tag .whereClause, e]
    · obtain ⟨e, rfl⟩ := h
      simp [walkCall, ih]
    · have hne : ∀ e, f ≠ .list [.tag .whereClause, e] := fun e he => h ⟨e, he⟩
      rw [walkCall_cons_of_ne hne, walkCall_cons_of_ne hne, ih, List.append_assoc]

/-- Only a name right behind that of a column is a type. -/
theorem walkElements_cons_of_ne {f : Form}
    (h : ∀ s type parts, f ≠ .list (.name s :: .name type :: parts)) (fs : List Form) :
    walkElements (f :: fs) = walk f ++ walkElements fs := by
  rw [walkElements]
  exact h

/-- The operands of the items of a column. -/
def walkColumn (parts : List Form) : List Operand := walkElements [.list parts]

theorem walkColumn_eq {s : Span} {type constraints : List Form} (htype : Optional IsType type)
    (hconstraints : ∀ f ∈ constraints, IsColumnConstraint f) :
    walkColumn (.name s :: type ++ constraints) =
      .name s :: (type.flatMap walkType ++ walkAll constraints) := by
  rw [walkColumn]
  cases htype with
  | absent =>
    rw [walkElements_cons_of_ne]
    · exact List.append_nil _
    · -- A constraint is no name.
      rintro s type parts ⟨⟩
      cases hconstraints _ List.mem_cons_self with
      | defaultValue h => cases h
  | present h =>
    cases h with
    | plain type => simp [walkElements, walkType]
    | sized type size => simp [walkElements, walkType, walk, walkList]
    | scaled type size scale => simp [walkElements, walkType, walk, walkList]

theorem walkElements_eq_flatMap (fs : List Form) :
    walkElements fs = fs.flatMap fun f => walkElements [f] := by
  induction fs with
  | nil => rfl
  | cons f fs ih =>
    rw [List.flatMap_cons, ← ih]
    by_cases h : ∃ s type parts, f = .list (.name s :: .name type :: parts)
    · obtain ⟨s, type, parts, rfl⟩ := h
      simp [walkElements]
    · have hne : ∀ s type parts, f ≠ .list (.name s :: .name type :: parts) :=
        fun s type parts he => h ⟨s, type, parts, he⟩
      rw [walkElements_cons_of_ne hne, walkElements_cons_of_ne hne, walkElements, List.append_nil]

end Form

end TaggedSql
