import TaggedSql.Proofs.Ledger.Statements
import TaggedSql.Proofs.Session.Encoding
import TaggedSql.Proofs.Token.Policy

/-!
# The account of double-precision numbers

Under the rejecting policy every double-precision number of a tree comes from a token that is one. The
ledger counts the numbers below the nodes at hand and the tokens ahead that are numbers, and the count
never rises; the walk through a tree gives the count from below.
-/

namespace TaggedSql

/-! ### Counting -/

namespace Form

mutual

/-- The number of double-precision numbers in a form. -/
def floats : Form → Nat
  | .list items => floatsAll items
  | .float _ => 1
  | _ => 0

/-- The number of double-precision numbers in several forms. -/
def floatsAll : List Form → Nat
  | [] => 0
  | item :: items => floats item + floatsAll items

end

end Form

namespace Operand

mutual

/-- The number of double-precision numbers in an operand. -/
def floats : Operand → Nat
  | .float _ => 1
  | .limit operands | .offset operands => floatsAll operands
  | _ => 0

/-- The number of double-precision numbers in several operands. -/
def floatsAll : List Operand → Nat
  | [] => 0
  | operand :: operands => floats operand + floatsAll operands

end

theorem floatsAll_append (v w : List Operand) :
    floatsAll (v ++ w) = floatsAll v + floatsAll w := by
  induction v with
  | nil => simp [floatsAll]
  | cons i v ih => simp [floatsAll, ih, Nat.add_assoc]

end Operand

theorem Form.walkList_cons_of_ne {f : Form} (h : ∀ t, f = .tag t → False) (fs : List Form) :
    walkList (f :: fs) = walk f ++ walkAll fs := by
  cases f with
  | tag t => exact (h t rfl).elim
  | _ => rfl

theorem Form.walkTagged_nil (t : Tag) : walkTagged t [] = [] := by
  cases t with
  | _ => rfl

/-- A walk through a form meets each of its numbers once. -/
theorem Form.floats_walk (f : Form) : Operand.floatsAll (walk f) = f.floats := by
  revert f
  -- The induction follows the walk, with one statement for each of its parts.
  apply Form.walk.induct (fun f => Operand.floatsAll (walk f) = f.floats)
    (fun fs => Operand.floatsAll (walkList fs) = floatsAll fs)
    (fun fs => Operand.floatsAll (walkAll fs) = floatsAll fs)
    (fun t fs => Operand.floatsAll (walkTagged t fs) = floatsAll fs)
    (fun fs => Operand.floatsAll (walkElements fs) = floatsAll fs)
    (fun fs => Operand.floatsAll (walkCall fs) = floatsAll fs)
  case case10 =>
    intro f fs hne ih ihs
    rw [walkList_cons_of_ne hne, Operand.floatsAll_append, ih, ihs, Form.floatsAll]
  case case22 =>
    intro t
    rw [walkTagged_nil]
    rfl
  case case23 =>
    intros
    rw [walkTagged, Operand.floatsAll_append, ‹Operand.floatsAll (walk _) = _›,
      ‹Operand.floatsAll (walkAll _) = _›, Form.floatsAll]
    all_goals assumption
  all_goals
    intros
    simp_all [walk, walkList, walkTagged, walkAll, walkCall, walkElements, Form.floats,
      Form.floatsAll, Operand.floats, Operand.floatsAll, Operand.floatsAll_append]

/-! ### Tokens and nodes -/

/-- Whether a node is a double-precision number. -/
def Node.isFloat : Node → Bool
  | .float _ => true
  | _ => false

/-- The number of tokens that are double-precision numbers. -/
def Token.floats (ts : List Token) : Nat := ts.countP fun t => t.kind.isFloat

/-- The number of nodes that are double-precision numbers. -/
def Arena.floats (a : Arena) : Nat := a.nodes.toList.countP Node.isFloat

theorem Kind.isFloat_of_isSilent {k : Kind} (h : k.isSilent = true) : k.isFloat = false := by
  cases k with
  | float x => cases h
  | _ => rfl

theorem Kind.isFloat_of_isIdentifier {k : Kind} (h : k.isIdentifier = true) :
    k.isFloat = false := by
  cases k with
  | float x => cases h
  | _ => rfl

theorem Token.floats_append (ts us : List Token) :
    Token.floats (ts ++ us) = Token.floats ts + Token.floats us := List.countP_append

theorem Token.floats_cons_of_not {t : Token} (h : t.kind.isFloat = false) (ts : List Token) :
    Token.floats (t :: ts) = Token.floats ts := List.countP_cons_of_neg (by simp [h])

theorem Token.floats_cons_of_float {t : Token} {x : Binary64} (h : t.kind = .float x)
    (ts : List Token) : Token.floats (t :: ts) = Token.floats ts + 1 :=
  List.countP_cons_of_pos (by rw [h]; rfl)

theorem Token.floats_rest (s : Stream) : Token.floats s.rest = Token.floats s.ahead := by
  rw [Stream.rest, Token.floats_append]
  rfl

/-- An operand holds at least the numbers among the tokens that it stands for. -/
theorem Operand.Stands.floats_le {i : Operand} {xs ts : List Token} (h : i.Stands xs ts) :
    Token.floats xs ≤ i.floats := by
  cases h with
  | name h => simp [Token.floats, Kind.isFloat_of_isIdentifier h]
  | typeName h =>
    refine Nat.le_of_eq (List.countP_eq_zero.2 fun w hw => ?_)
    rw [h w hw]
    exact Bool.false_ne_true
  | float h => simp [Token.floats, Operand.floats, Kind.isFloat, h]
  | least ht hu => simp [Token.floats, Kind.isFloat, ht, hu]
  | parameter h | string h | blob h | integer h | promoted h | sign h | subtract h
  | aggregate h | countStar h | filter h => simp [Token.floats, Kind.isFloat, h]

/-- No number among the tokens is missing from the operands that stand for them. -/
theorem Spells.floats_le {w : List Operand} {ts us : List Token} (h : Spells w ts us) :
    Token.floats ts ≤ Operand.floatsAll w + Token.floats us := by
  induction h with
  | done ts => exact Nat.le_add_left _ _
  | silent ht _ ih =>
    rw [Token.floats_cons_of_not (Kind.isFloat_of_isSilent ht)]
    exact ih
  | operand hi _ ih =>
    have := hi.floats_le
    rw [Token.floats_append, Operand.floatsAll]
    omega
  | limit ht _ _ ihcount ih =>
    rw [Token.floats_cons_of_not (by rw [ht]; rfl), Operand.floatsAll, Operand.floats]
    omega
  | offset ht _ _ ihskipped ih =>
    rw [Token.floats_cons_of_not (by rw [ht]; rfl), Operand.floatsAll, Operand.floats]
    omega
  | swapped ht _ hcomma _ _ ihskipped ihcount ih =>
    rw [Token.floats_cons_of_not (by rw [hcomma]; rfl)] at ihskipped
    rw [Token.floats_cons_of_not (by rw [ht]; rfl), Operand.floatsAll, Operand.floatsAll,
      Operand.floats, Operand.floats]
    omega

/-! ### The ledger -/

theorem Form.floatsAll_eq_sum (fs : List Form) : floatsAll fs = (fs.map floats).sum := by
  induction fs with
  | nil => rfl
  | cons f fs ih => rw [floatsAll, ih, List.map_cons, List.sum_cons]

theorem Form.floatsAll_append (fs gs : List Form) :
    floatsAll (fs ++ gs) = floatsAll fs + floatsAll gs := by
  rw [floatsAll_eq_sum, floatsAll_eq_sum, floatsAll_eq_sum, List.map_append, List.sum_append]

namespace Arena

variable {a b : Arena} {ids : List NodeId}

/-- Nodes that are there keep their forms while their arena grows. -/
theorem Grows.map_form_eq (ha : a.Sound) (h : a.Grows b) (hids : ∀ id ∈ ids, id < a.size) :
    ids.map b.form = ids.map a.form :=
  List.map_congr_left fun id hid => h.form_eq ha (hids id hid)

theorem holdsAll_map_form (h : ∀ id ∈ ids, id < a.size) : a.HoldsAll ids (ids.map a.form) := by
  induction ids with
  | nil => exact holdsAll_nil
  | cons id ids ih =>
    have hrest := ih fun i hi => h i (List.mem_cons_of_mem _ hi)
    exact hrest.cons ⟨h id List.mem_cons_self, rfl⟩

theorem floats_push {node : Node} {f : Form} (h : node.leaf? = some f) :
    (a.push node).floats = a.floats + f.floats := by
  rw [floats, push, Array.toList_push, List.countP_append, floats]
  cases node with
  | list r => cases h
  | _ =>
    cases h
    rfl

theorem floats_pushList : (a.pushList ids).floats = a.floats := by
  rw [floats, pushList, Array.toList_push, List.countP_append, floats]
  rfl

end Arena

/-- The numbers below the nodes at hand are all numbers of the arena, and together with those ahead
they are no more than a total. -/
structure FloatsCounted (total : Nat) (s : ParseState) (ids : List NodeId) : Prop where
  sound : s.arena.Sound
  lt : ∀ id ∈ ids, id < s.arena.size
  below : Form.floatsAll (ids.map s.arena.form) = s.arena.floats
  le : s.arena.floats + Token.floats s.stream.ahead ≤ total

namespace FloatsCounted

variable {total : Nat} {s : ParseState} {ids items : List NodeId}

/-- A node that is no list is added, and with it the tokens change. -/
theorem push {node : Node} {f : Form} {stream : Stream} (h : FloatsCounted total s ids)
    (hleaf : node.leaf? = some f)
    (hstream : f.floats + Token.floats stream.ahead ≤ Token.floats s.stream.ahead) :
    FloatsCounted total ⟨stream, s.arena.push node⟩ (ids ++ [s.arena.size]) where
  sound := (Arena.grows_push hleaf).sound h.sound
  lt := Arena.lt_concat h.lt (Arena.size_push node)
  below := by
    rw [List.map_append, Form.floatsAll_append,
      (Arena.grows_push hleaf).map_form_eq h.sound h.lt, h.below, Arena.floats_push hleaf]
    show _ + Form.floatsAll [(s.arena.push node).form s.arena.size] = _
    rw [(Arena.holds_push hleaf).form]
    rfl
  le := by
    have := h.le
    rw [Arena.floats_push hleaf]
    show _ + Token.floats stream.ahead ≤ total
    omega

/-- A list has the numbers of its items below it. -/
theorem pushList (h : FloatsCounted total s (ids ++ items)) :
    FloatsCounted total ⟨s.stream, s.arena.pushList items⟩ (ids ++ [s.arena.size]) := by
  have hids : ∀ id ∈ ids, id < s.arena.size := fun id hid => h.lt id (List.mem_append_left _ hid)
  have hitems : ∀ id ∈ items, id < s.arena.size := fun id hid => h.lt id (List.mem_append_right _ hid)
  have hlist := Arena.holds_pushList h.sound (Arena.holdsAll_map_form hitems)
  have hbelow := h.below
  rw [List.map_append, Form.floatsAll_append] at hbelow
  constructor
  · exact Arena.grows_pushList.sound h.sound
  · exact Arena.lt_concat hids Arena.size_pushList
  · rw [List.map_append, Form.floatsAll_append, Arena.grows_pushList.map_form_eq h.sound hids,
      Arena.floats_pushList, ← hbelow]
    show _ + Form.floatsAll [(s.arena.pushList items).form s.arena.size] = _
    rw [hlist.form]
    rfl
  · rw [Arena.floats_pushList]
    exact h.le

end FloatsCounted

/-- The ledger of double-precision numbers under the rejecting policy. -/
def Ledger.ofFloats (total : Nat) : Ledger where
  policy := .reject
  holds := FloatsCounted total
  failed _ := True
  fail _ := trivial
  perm := by
    intro s ids ids' hperm h
    have hsum := ((hperm.map s.arena.form).map Form.floats).sum_eq
    rw [← Form.floatsAll_eq_sum, ← Form.floatsAll_eq_sum] at hsum
    exact ⟨h.sound, fun id hid => h.lt id (hperm.mem_iff.2 hid), hsum.symm.trans h.below, h.le⟩
  advance h := by
    refine ⟨h.sound, h.lt, h.below, Nat.le_trans (Nat.add_le_add_left ?_ _) h.le⟩
    exact (List.tail_sublist _).countP_le
  push := by
    intro s ids node hplain h
    obtain ⟨f, hleaf, hf⟩ : ∃ f, node.leaf? = some f ∧ f.floats = 0 := by
      cases node with
      | list _ | float _ => cases hplain
      | _ => exact ⟨_, rfl, rfl⟩
    refine h.push hleaf (Nat.le_of_eq ?_)
    rw [hf, Nat.zero_add]
  float := by
    intro s ids x hx h
    refine h.push rfl (Nat.le_of_eq ?_)
    have hkind : s.stream.current.kind = .float x := by
      cases hkind : s.stream.current.kind with
      | float y =>
        rw [hkind] at hx
        rw [Option.some.inj hx]
      | _ =>
        rw [hkind] at hx
        cases hx
    have hrest := Stream.rest_eq_cons (s := s.stream) (by rw [hkind]; exact Kind.noConfusion)
    rw [← Token.floats_rest s.stream, hrest, Token.floats_cons_of_float hkind, Token.floats_rest,
      Nat.add_comm]
    rfl
  pushList h := h.pushList

/-! ### Trees -/

open Rule Arena Form Statement

/-- Under the rejecting policy a tree holds as many double-precision numbers as the tokens that were
taken for it, all of them below its root. -/
theorem floats_of_tree {settings : Settings} {source : String} {s s' : ParseState} {t : Tree}
    (hpolicy : settings.overflow = .reject) (h : tree settings source s = .ok t s')
    (hempty : s.arena = {}) :
    (t.form t.root).floats = t.arena.floats ∧
      t.arena.floats + Token.floats s'.stream.rest = Token.floats s.stream.rest := by
  obtain ⟨_, hspells, _⟩ := exists_of_tree h (hempty ▸ sound_empty)
  have hlower := hspells.floats_le
  rw [floats_walk] at hlower
  obtain ⟨root, s₁, hstatement, hrest⟩ := bind_eq_ok h
  cases hrest
  have hcontext := Ledger.context_enter (L := .ofFloats (Token.floats s.stream.ahead)) hpolicy
    settings.maxDepth
  have hstart : FloatsCounted (Token.floats s.stream.ahead) s ([] ++ []) := by
    constructor
    · rw [hempty]
      exact sound_empty
    · exact fun _ hid => nomatch hid
    · rw [hempty]
      rfl
    · rw [hempty]
      exact Nat.le_of_eq (Nat.zero_add _)
  have hcounted := Ledger.keeps_statement hcontext s [] hstart
  rw [show statement ⟨settings.overflow, enter settings settings.maxDepth⟩ s = _ from hstatement]
    at hcounted
  have hbelow : (s₁.arena.form root).floats = s₁.arena.floats := by
    have := hcounted.below
    simpa [Form.floatsAll] using this
  have hupper := hcounted.le
  rw [Token.floats_rest, Token.floats_rest] at hlower ⊢
  refine ⟨hbelow, Nat.le_antisymm hupper ?_⟩
  rw [← hbelow]
  exact hlower

end TaggedSql
