import TaggedSql.Proofs.Tree.Additions

/-!
# Reading an exported tree back

The JSON value of a tree has everything that its form has: lists with their items, tags, the bits of
numbers, and the kinds and ends of spans. Only a number that is not finite has no JSON value of its own
and is lost. The members of an object may be put in the order of their keys, as in an exported value.

* `Form.ofJson?`: the form that a JSON value stands for;
* `Form.ofJson?_toJson`: the value of a form stands for the form exactly if its numbers are finite;
* `Form.ofJson?_sortKeys`: the order of the members does not matter;
* `Tree.Built`: a tree that was finished behind additions;
* `export_determines_form`: the value of a tree is found, and stands for the form of its root.
-/

namespace TaggedSql

/-! ### Forms that values stand for -/

namespace Json

/-- The value of a member of an object. -/
def member? (key : String) : Json → Option Json
  | .object members => members.lookup key
  | _ => none

/-- A natural number. -/
def toNat? : Json → Option Nat
  | .integer n => n.toNat?
  | _ => none

@[simp]
theorem toNat?_natCast (n : Nat) : (integer n).toNat? = some n := rfl

/-- The span with a start and an end. -/
def toSpan? (value : Json) : Option Span := do
  let start ← value.member? "start"
  let stop ← value.member? "end"
  return ⟨← start.toNat?, ← stop.toNat?⟩

end Json

namespace Form

mutual

/-- The form that a value stands for: an object whose one key is the kind of a node. -/
def ofJson? : Json → Option Form
  | .object [("List", .array values)] => (ofJsonItems? values).map .list
  | .object [("KW", .string s)] => (Tag.ofName? s).map .tag
  | .object [("Integer", .integer n)] => some (.integer (Int64.ofInt n))
  | .object [("Float", .float x)] => some (.float x)
  | .object [("Id", value)] => value.toSpan?.map .name
  | .object [("String", value)] => value.toSpan?.map .string
  | .object [("Binary", value)] => value.toSpan?.map .blob
  | _ => none

/-- The forms that the items of an array stand for. -/
def ofJsonItems? : List Json → Option (List Form)
  | [] => some []
  | value :: values => do return (← ofJson? value) :: (← ofJsonItems? values)

end

mutual

/-- Whether all double-precision numbers of a form are finite. -/
def isFinite : Form → Bool
  | .list items => areFinite items
  | .float x => x.isFinite
  | _ => true

/-- Whether all double-precision numbers of several forms are finite. -/
def areFinite : List Form → Bool
  | [] => true
  | item :: items => isFinite item && areFinite items

end

theorem areFinite_of_forall {items : List Form} (h : ∀ item ∈ items, item.isFinite = true) :
    areFinite items = true := by
  induction items with
  | nil => rfl
  | cons item items ih =>
    have hitem := h item List.mem_cons_self
    have hitems := ih fun other hother => h other (List.mem_cons_of_mem item hother)
    rw [areFinite, hitem, hitems]
    rfl

theorem toSpan?_spanJson (s : Span) : (spanJson s).toSpan? = some s := by
  simp [Json.toSpan?, spanJson, Json.member?, List.lookup]

mutual

/-- The value of a form stands for the form exactly if all numbers of the form are finite. -/
theorem ofJson?_toJson : (f : Form) → ofJson? f.toJson = if f.isFinite then some f else none
  | .list items => by
    have hitems := ofJsonItems?_toJsonItems items
    rw [toJson, ofJson?, hitems, isFinite]
    cases areFinite items <;> rfl
  | .tag t => by
    rw [toJson, ofJson?, Tag.ofName?_name]
    rfl
  | .integer n => by
    rw [toJson, ofJson?, Int64.ofInt_toInt]
    rfl
  | .float x => by
    rw [toJson, isFinite]
    cases x.isFinite <;> rfl
  | .name s => by
    rw [toJson, ofJson?, toSpan?_spanJson]
    rfl
  | .string s => by
    rw [toJson, ofJson?, toSpan?_spanJson]
    rfl
  | .blob s => by
    rw [toJson, ofJson?, toSpan?_spanJson]
    rfl

/-- The values of several forms stand for the forms exactly if all their numbers are finite. -/
theorem ofJsonItems?_toJsonItems :
    (fs : List Form) → ofJsonItems? (toJsonItems fs) = if areFinite fs then some fs else none
  | [] => rfl
  | f :: fs => by
    have hf := ofJson?_toJson f
    have hfs := ofJsonItems?_toJsonItems fs
    rw [toJsonItems, ofJsonItems?, hf, hfs, areFinite]
    cases f.isFinite <;> cases areFinite fs <;> rfl

end

/-! ### The order of members -/

theorem sortKeys_single (key : String) (value : Json) :
    (Json.object [(key, value)]).sortKeys = .object [(key, value.sortKeys)] := by
  simp [Json.sortKeys, Json.sortKeysMembers]

theorem sortKeys_spanJson (s : Span) :
    (spanJson s).sortKeys = .object [("end", .integer s.stop), ("start", .integer s.start)] := by
  have hle : ¬"start" ≤ "end" := by decide
  simp [spanJson, Json.sortKeys, Json.sortKeysMembers, List.mergeSort, hle]

theorem toSpan?_sortKeys (s : Span) : (spanJson s).sortKeys.toSpan? = some s := by
  rw [sortKeys_spanJson]
  simp [Json.toSpan?, Json.member?, List.lookup]

mutual

/-- The order of the members of the objects does not matter. -/
theorem ofJson?_sortKeys : (f : Form) → ofJson? f.toJson.sortKeys = ofJson? f.toJson
  | .list items => by
    have hitems := ofJsonItems?_sortKeysItems items
    rw [toJson, sortKeys_single, Json.sortKeys, ofJson?, ofJson?, hitems]
  | .tag t => by
    rw [toJson, sortKeys_single]
    rfl
  | .integer n => by
    rw [toJson, sortKeys_single]
    rfl
  | .float x => by
    rw [toJson, sortKeys_single]
    cases x.isFinite <;> rfl
  | .name s => by
    rw [toJson, sortKeys_single, ofJson?, ofJson?, toSpan?_sortKeys, toSpan?_spanJson]
  | .string s => by
    rw [toJson, sortKeys_single, ofJson?, ofJson?, toSpan?_sortKeys, toSpan?_spanJson]
  | .blob s => by
    rw [toJson, sortKeys_single, ofJson?, ofJson?, toSpan?_sortKeys, toSpan?_spanJson]

theorem ofJsonItems?_sortKeysItems : (fs : List Form) →
    ofJsonItems? (Json.sortKeysItems (toJsonItems fs)) = ofJsonItems? (toJsonItems fs)
  | [] => rfl
  | f :: fs => by
    rw [toJsonItems, Json.sortKeysItems, ofJsonItems?, ofJsonItems?, ofJson?_sortKeys f,
      ofJsonItems?_sortKeysItems fs]

end

end Form

/-! ### Trees -/

namespace Tree

variable {t u : Tree} {id : NodeId}

/-- All double-precision numbers of a tree are finite. -/
def HasFiniteNumbers (t : Tree) : Prop :=
  ∀ (id : NodeId) (x : Binary64), t.float? id = some x → x.isFinite = true

theorem isFinite_form (h : t.HasFiniteNumbers) (id : NodeId) : (t.form id).isFinite = true := by
  -- Children stand before their list, so the induction is on the position.
  induction id using Nat.strongRecOn with
  | ind id ih =>
    cases hnode : t.arena.nodes[id]? with
    | none =>
      rw [form, Arena.form, hnode]
      rfl
    | some node =>
      cases node with
      | list r =>
        rw [form, Arena.form_of_list hnode, Form.isFinite]
        apply Form.areFinite_of_forall
        intro item hitem
        obtain ⟨child, _, rfl⟩ := List.mem_map.1 hitem
        by_cases hlt : child < id
        · rw [if_pos hlt]
          exact ih child hlt
        · rw [if_neg hlt]
          rfl
      | float x =>
        have hx : t.float? id = some x := by
          rw [float?, node?, hnode]
        rw [form, Arena.form_of_leaf hnode rfl, Form.isFinite]
        exact h id x hx
      | _ =>
        rw [form, Arena.form_of_leaf hnode rfl]
        rfl

/-- The value of a node of a tree with finite numbers stands for the form of the node. -/
theorem ofJson?_toJson (h : t.HasFiniteNumbers) (id : NodeId) :
    Form.ofJson? (t.toJson id) = some (t.form id) := by
  rw [toJson, Form.ofJson?_toJson, isFinite_form h id]
  rfl

theorem ofJson?_sortKeys (h : t.HasFiniteNumbers) (id : NodeId) :
    Form.ofJson? (t.toJson id).sortKeys = some (t.form id) := by
  rw [toJson, Form.ofJson?_sortKeys]
  exact ofJson?_toJson h id

/-- A tree that was finished behind allowed additions, its root being a position handed out. -/
inductive Built : Tree → Prop
  | finish {cs : List Addition} {root : NodeId} (h : Builder.AllowsAll {} cs) (source : String)
      (hroot : root ∈ (Builder.after {} cs).handed) :
      Built ((Builder.after {} cs).finish source root)

theorem Built.ordered (h : t.Built) : t.arena.Ordered ∧ t.root < t.arena.size := by
  cases h with
  | @finish cs root hallowed source hroot =>
    have hholds := Builder.holds_after hallowed
    rw [hholds.handed, ← hholds.size] at hroot
    exact ⟨hholds.ordered, List.mem_range.1 hroot⟩

/-- The value of a tree is always found, and stands for the form of its root: lists, tags, numbers to the
last bit, and spans of each kind. So trees with the same value have the same form. This is the case
for the value as it is and for that with the members of its objects in the order of their keys. -/
theorem export_determines_form (ht : t.Built) (hfinite : t.HasFiniteNumbers) :
    (∀ levels > t.root, t.followForm? levels t.root = some (t.form t.root) ∧
        t.followJson? levels t.root = some (t.toJson t.root)) ∧
      Form.ofJson? (t.toJson t.root) = some (t.form t.root) ∧
      Form.ofJson? (t.toJson t.root).sortKeys = some (t.form t.root) ∧
      ∀ u : Tree, u.Built → u.HasFiniteNumbers →
        (u.toJson u.root = t.toJson t.root → u.form u.root = t.form t.root) ∧
        ((u.toJson u.root).sortKeys = (t.toJson t.root).sortKeys →
          u.form u.root = t.form t.root) := by
  obtain ⟨hordered, hroot⟩ := ht.ordered
  refine ⟨fun levels hlevels => ?_, ofJson?_toJson hfinite _, ofJson?_sortKeys hfinite _, ?_⟩
  · exact ⟨followForm?_eq hordered hroot hlevels, followJson?_eq hordered hroot hlevels⟩
  · intro u _ hu
    constructor
    · intro hvalue
      have hform := ofJson?_toJson hu u.root
      rw [hvalue, ofJson?_toJson hfinite] at hform
      exact (Option.some.inj hform).symm
    · intro hvalue
      have hform := ofJson?_sortKeys hu u.root
      rw [hvalue, ofJson?_sortKeys hfinite] at hform
      exact (Option.some.inj hform).symm

/-- The two zeros are told apart, in trees that are the same otherwise. -/
theorem export_determines_form_zeros :
    ∃ made : UInt64 → Tree,
      made = (fun bits => (Builder.after {} [.leaf (.float ⟨bits⟩) rfl, .name ⟨0, 1⟩,
        .list [0, 1, 1]]).finish "a" 2) ∧
      (made 0).Built ∧ (made 0).HasFiniteNumbers ∧
      Form.ofJson? ((made 0).toJson 2).sortKeys = some ((made 0).form 2) ∧
      ((made 0x8000000000000000).toJson 2).sortKeys ≠ ((made 0).toJson 2).sortKeys := by
  refine ⟨_, rfl, ?_⟩
  set made : UInt64 → Tree := fun bits => (Builder.after {} [.leaf (.float ⟨bits⟩) rfl,
    .name ⟨0, 1⟩, .list [0, 1, 1]]).finish "a" 2
  have hbuilt : ∀ bits, (made bits).Built :=
    fun bits => .finish (of_decide_eq_true rfl) "a" (of_decide_eq_true rfl)
  have hfinite : ∀ bits, (Binary64.mk bits).isFinite = true → (made bits).HasFiniteNumbers := by
    intro bits hbits id x hx
    rcases id with _ | _ | _ | id <;> cases hx
    exact hbits
  have hzero := hfinite 0 (by decide)
  have hother := hfinite 0x8000000000000000 (by decide)
  obtain ⟨hfound, _, hread, hunique⟩ := export_determines_form (hbuilt 0) hzero
  refine ⟨hbuilt 0, hzero, hread, fun hvalue => ?_⟩
  have hform := (hunique _ (hbuilt _) hother).2 hvalue
  have hfoundZero := (hfound 3 (by decide)).1
  have hfoundOther := ((export_determines_form (hbuilt _) hother).1 3 (by decide)).1
  rw [hform, ← hfoundZero] at hfoundOther
  cases hfoundOther

end Tree

end TaggedSql
