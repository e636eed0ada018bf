import TaggedSql.Proofs.Grammar.Parts
import TaggedSql.Proofs.Grammar.Running
import TaggedSql.Proofs.Tree.Datum
import TaggedSql.Proofs.Tree.Operands

/-!
# What rules build

A logic for rules that succeed. A rule takes tokens and adds nodes; what is known of it says which
operands the tokens taken stand for, and of which shape the nodes are. Knowledge about nodes is kept
while further nodes are added.

* `BuildsFrom`: what a rule is known to do, from streams and arenas of which something is known;
* `Built`, `BuiltAll`: a node, or several, of some shape, whose walk gives the operands taken;
* `BuildsFrom.bind`, `BuildsFrom.node`, `BuildsFrom.nodes`: one rule after another;
* `BuildsFrom.iterate`: one step after another;
* one statement for each way of looking at tokens, taking them and adding nodes.
-/

namespace TaggedSql

open Arena Form

namespace Stream

/-- No terminal is the end of a source. -/
theorem rest_of_terminal {s : Stream} {t : Terminal} (h : s.current.kind = t.kind) :
    s.rest = s.current :: s.advance.rest := by
  apply rest_eq_cons
  rw [h]
  cases t with
  | symbol x => exact Kind.noConfusion
  | word w => exact Kind.noConfusion

/-- A token that stands for no operand is passed. -/
theorem spells_silent {s : Stream} (h : s.current.kind.isSilent = true) :
    Spells [] s.rest s.advance.rest := by
  by_cases hend : s.current.kind = .endOfInput
  · cases hahead : s.ahead with
    | nil =>
      rw [rest, rest, advance, hahead]
      exact .done _
    | cons t ts =>
      rw [rest, rest, advance, hahead]
      rw [current, peek, hahead] at h
      exact .silent h (.done _)
  · rw [rest_eq_cons hend]
    exact .silent h (.done _)

/-- A token that stands for an operand is taken. -/
theorem spells_front {s : Stream} {i : Operand} (hend : s.current.kind ≠ .endOfInput)
    (h : i.Stands [s.current] s.advance.rest) : Spells [i] s.rest s.advance.rest := by
  rw [rest_eq_cons hend]
  exact .single h

theorem spells_name {s : Stream} (h : s.current.kind.isIdentifier = true) :
    Spells [.name s.current.span] s.rest s.advance.rest := by
  refine spells_front ?_ (.name h)
  intro hend
  rw [hend] at h
  cases h

end Stream

namespace Rule

variable {α β γ : Type}

/-- A rule that succeeds on a stream as `F` says and an arena as `K` says has taken tokens for some
operands and added nodes, and `V` holds of its value, the operands and the arena. -/
def BuildsFrom (F : Stream → Prop) (K : Arena → Prop) (x : Rule α)
    (V : α → List Operand → Arena → Prop) : Prop :=
  ∀ s a s', x s = .ok a s' → F s.stream → s.arena.Sound → K s.arena →
    ∃ w, Spells w s.stream.rest s'.stream.rest ∧ s.arena.Grows s'.arena ∧ V a w s'.arena

/-- What a rule is known to do wherever it succeeds. -/
abbrev Builds (x : Rule α) (V : α → List Operand → Arena → Prop) : Prop :=
  BuildsFrom (fun _ => True) (fun _ => True) x V

/-- A node of a shape whose operands are given. -/
def Built (P : Form → Prop) (e : Form → List Operand) (id : NodeId) (w : List Operand) (A : Arena) :
    Prop :=
  ∃ f, A.Holds id f ∧ P f ∧ e f = w

/-- Several nodes of a shape whose operands are given. -/
def BuiltAll (P : List Form → Prop) (e : List Form → List Operand) (ids : List NodeId)
    (w : List Operand) (A : Arena) : Prop :=
  ∃ fs, A.HoldsAll ids fs ∧ P fs ∧ e fs = w

/-- A value as `V` says, or none, for which no operands are taken. -/
def OrNone (V : α → List Operand → Arena → Prop) : Option α → List Operand → Arena → Prop
  | none, w, _ => w = []
  | some a, w, A => V a w A

instance stable_built (P : Form → Prop) (e : Form → List Operand) (id : NodeId) (w : List Operand) :
    Stable (Built P e id w) where
  mono := by
    rintro A B hA hAB ⟨f, hf, hP, he⟩
    exact ⟨f, hf.mono hA hAB, hP, he⟩

instance stable_builtAll (P : List Form → Prop) (e : List Form → List Operand) (ids : List NodeId)
    (w : List Operand) : Stable (BuiltAll P e ids w) where
  mono := by
    rintro A B hA hAB ⟨fs, hfs, hP, he⟩
    exact ⟨fs, hfs.mono hA hAB, hP, he⟩

section Sequences

variable {F G : Stream → Prop} {K L : Arena → Prop} {x : Rule α} {g : α → Rule β}
  {V V' : α → List Operand → Arena → Prop} {W : β → List Operand → Arena → Prop}
  {P : Form → Prop} {e : Form → List Operand} {Ps : List Form → Prop}
  {es : List Form → List Operand}

/-! ### Sequences of rules -/

theorem BuildsFrom.weaken (h : BuildsFrom F K x V) (hF : ∀ s, G s → F s) (hK : ∀ A, L A → K A) :
    BuildsFrom G L x V :=
  fun s a s' hrun hG hsound hL => h s a s' hrun (hF _ hG) hsound (hK _ hL)

theorem BuildsFrom.imp (h : BuildsFrom F K x V) (hV : ∀ a w A, V a w A → V' a w A) :
    BuildsFrom F K x V' := by
  intro s a s' hrun hF hsound hK
  obtain ⟨w, hw, hgrows, ha⟩ := h s a s' hrun hF hsound hK
  exact ⟨w, hw, hgrows, hV a w _ ha⟩

/-- What a rule does wherever it succeeds it does from here. -/
theorem Builds.from (h : Builds x V) : BuildsFrom F K x V :=
  BuildsFrom.weaken h (fun _ _ => trivial) fun _ _ => trivial

/-- What follows from what is known of the arena alone may be used. -/
theorem BuildsFrom.know {p : Prop} (hK : ∀ A, K A → p) (h : p → BuildsFrom F K x V) :
    BuildsFrom F K x V :=
  fun s a s' hrun hF hsound hs => h (hK _ hs) s a s' hrun hF hsound hs

/-- So may what follows from what is known of the stream alone. -/
theorem BuildsFrom.knowStream {p : Prop} (hF : ∀ s, F s → p) (h : p → BuildsFrom F K x V) :
    BuildsFrom F K x V :=
  fun s a s' hrun hs hsound hK => h (hF _ hs) s a s' hrun hs hsound hK

theorem BuildsFrom.done {a : α} (h : ∀ A, K A → V a [] A) : BuildsFrom F K (pure a) V := by
  intro s b s' hrun _ _ hK
  cases hrun
  exact ⟨[], .done _, Grows.refl _, h _ hK⟩

/-- One rule after another: the operands come one after the other too. -/
theorem BuildsFrom.bind [Stable K] (h : BuildsFrom F K x V)
    (hg : ∀ a w, BuildsFrom (fun _ => True) (fun A => K A ∧ V a w A) (g a)
      fun b w' A => W b (w ++ w') A) : BuildsFrom F K (x >>= g) W := by
  intro s b s' hrun hF hsound hK
  obtain ⟨a, s₁, hx, hrun⟩ := bind_eq_ok hrun
  obtain ⟨w, hw, hgrows, ha⟩ := h s a s₁ hx hF hsound hK
  obtain ⟨w', hw', hgrows', hb⟩ := hg a w s₁ b s' hrun trivial (hgrows.sound hsound)
    ⟨Stable.mono hsound hgrows hK, ha⟩
  exact ⟨w ++ w', hw.append hw', hgrows.trans hgrows', hb⟩

/-- What is known of a node may be used before a rule runs. -/
theorem BuildsFrom.open {id : NodeId} {w : List Operand}
    (h : ∀ f, P f → e f = w → BuildsFrom F (fun A => K A ∧ A.Holds id f) x V) :
    BuildsFrom F (fun A => K A ∧ Built P e id w A) x V := by
  rintro s a s' hrun hF hsound ⟨hK, f, hf, hP, he⟩
  exact h f hP he s a s' hrun hF hsound ⟨hK, hf⟩

theorem BuildsFrom.openOnly {id : NodeId} {w : List Operand}
    (h : ∀ f, P f → e f = w → BuildsFrom F (fun A => A.Holds id f) x V) :
    BuildsFrom F (Built P e id w) x V := by
  rintro s a s' hrun hF hsound ⟨f, hf, hP, he⟩
  exact h f hP he s a s' hrun hF hsound hf

theorem BuildsFrom.openAll {ids : List NodeId} {w : List Operand}
    (h : ∀ fs, Ps fs → es fs = w → BuildsFrom F (fun A => K A ∧ A.HoldsAll ids fs) x V) :
    BuildsFrom F (fun A => K A ∧ BuiltAll Ps es ids w A) x V := by
  rintro s a s' hrun hF hsound ⟨hK, fs, hfs, hP, he⟩
  exact h fs hP he s a s' hrun hF hsound ⟨hK, hfs⟩

theorem BuildsFrom.openAllOnly {ids : List NodeId} {w : List Operand}
    (h : ∀ fs, Ps fs → es fs = w → BuildsFrom F (fun A => A.HoldsAll ids fs) x V) :
    BuildsFrom F (BuiltAll Ps es ids w) x V := by
  rintro s a s' hrun hF hsound ⟨fs, hfs, hP, he⟩
  exact h fs hP he s a s' hrun hF hsound hfs

/-- A rule for a node, and then another one. -/
theorem BuildsFrom.node {x : Rule NodeId} {g : NodeId → Rule β} [Stable K]
    (h : BuildsFrom F K x (Built P e))
    (hg : ∀ id f, P f → BuildsFrom (fun _ => True) (fun A => K A ∧ A.Holds id f) (g id)
      fun b w A => W b (e f ++ w) A) : BuildsFrom F K (x >>= g) W := by
  refine h.bind fun id w => BuildsFrom.open fun f hf he => ?_
  rw [← he]
  exact hg id f hf

/-- A rule for several nodes, and then another one. -/
theorem BuildsFrom.nodes {x : Rule (List NodeId)} {g : List NodeId → Rule β} [Stable K]
    (h : BuildsFrom F K x (BuiltAll Ps es))
    (hg : ∀ ids fs, Ps fs → BuildsFrom (fun _ => True) (fun A => K A ∧ A.HoldsAll ids fs) (g ids)
      fun b w A => W b (es fs ++ w) A) : BuildsFrom F K (x >>= g) W := by
  refine h.bind fun ids w => BuildsFrom.openAll fun fs hfs he => ?_
  rw [← he]
  exact hg ids fs hfs

/-- A rule that fails builds whatever is asked for. -/
theorem BuildsFrom.fails (h : ∀ s, ∃ e s', x s = .error e s') : BuildsFrom F K x V := by
  intro s a s' hrun
  obtain ⟨e, s₁, herror⟩ := h s
  rw [herror] at hrun
  cases hrun

/-- Nothing is built from a stream that cannot be. -/
theorem BuildsFrom.absurd (h : ∀ s, ¬F s) : BuildsFrom F K x V :=
  fun _ _ _ _ hF => (h _ hF).elim

theorem BuildsFrom.unexpected {e : Expectation} : BuildsFrom F K (Rule.unexpected e) V :=
  .fails fun _ => ⟨_, _, rfl⟩

/-! ### Looking at tokens -/

/-- A rule that only looks at the stream. -/
theorem BuildsFrom.look (see : Stream → α) (hx : ∀ s : ParseState, x s = .ok (see s.stream) s)
    (hg : ∀ a, BuildsFrom (fun s => F s ∧ see s = a) K (g a) W) :
    BuildsFrom F K (x >>= g) W := by
  intro s b s' hrun hF hsound hK
  rw [bind_of_ok (hx s)] at hrun
  exact hg _ s b s' hrun ⟨hF, rfl⟩ hsound hK

theorem BuildsFrom.peek {n : Nat} {g : Token → Rule β}
    (hg : ∀ t, BuildsFrom (fun s => F s ∧ s.peek n = t) K (g t) W) :
    BuildsFrom F K (Rule.peek n >>= g) W := .look (·.peek n) (peek_run n) hg

theorem BuildsFrom.current {g : Token → Rule β}
    (hg : ∀ t, BuildsFrom (fun s => F s ∧ s.current = t) K (g t) W) :
    BuildsFrom F K (Rule.current >>= g) W := .look Stream.current current_run hg

theorem BuildsFrom.currentWord? {g : Option Word → Rule β}
    (hg : ∀ w, BuildsFrom (fun s => F s ∧ s.current.kind.word? = w) K (g w) W) :
    BuildsFrom F K (Rule.currentWord? >>= g) W := .look (·.current.kind.word?) currentWord?_run hg

theorem BuildsFrom.at? {t : Terminal} {g : Bool → Rule β}
    (hg : ∀ b, BuildsFrom (fun s => F s ∧ (s.current.kind == t.kind) = b) K (g b) W) :
    BuildsFrom F K (Rule.at? t >>= g) W := .look (·.current.kind == t.kind) (at?_run t) hg

theorem BuildsFrom.atPlainIdentifier {g : Bool → Rule β}
    (hg : ∀ b, BuildsFrom (fun s => F s ∧ (s.current.kind == .identifier false) = b) K (g b) W) :
    BuildsFrom F K (Rule.atPlainIdentifier >>= g) W :=
  .look (·.current.kind == .identifier false) atPlainIdentifier_run hg

theorem BuildsFrom.atQuery {g : Bool → Rule β} (hg : ∀ b, BuildsFrom F K (g b) W) :
    BuildsFrom F K (Rule.atQuery >>= g) W :=
  .look (·.current.kind.startsQuery) atQuery_run fun b =>
    (hg b).weaken (fun _ h => h.1) fun _ => id

/-! ### Taking tokens -/

/-- The token at the front is taken for operands, and a stream as `G` says is left. -/
theorem BuildsFrom.advance {g : Unit → Rule β} {w : List Operand}
    (hF : ∀ s, F s → Spells w s.rest s.advance.rest) (hG : ∀ s, F s → G s.advance)
    (hg : BuildsFrom G K (g ()) fun b w' A => W b (w ++ w') A) :
    BuildsFrom F K (Rule.advance >>= g) W := by
  intro s b s' hrun hs hsound hK
  obtain ⟨_, s₁, hadvance, hrun⟩ := bind_eq_ok hrun
  obtain ⟨rfl, _⟩ := checkSpelling_eq_ok hadvance
  obtain ⟨w', hw', hgrows, hb⟩ := hg _ b s' hrun (hG _ hs) hsound hK
  exact ⟨w ++ w', (hF _ hs).append hw', hgrows, hb⟩

/-- The token at the front is taken for an operand that is known only when the rest of the rule has
run. -/
theorem BuildsFrom.advanceFor {t : Token} {g : Unit → Rule β} (ht : t.kind ≠ .endOfInput)
    (hF : ∀ s, F s → s.current = t)
    (hg : BuildsFrom (fun _ => True) K (g ())
      fun b w A => ∃ i : Operand, (∀ ts, i.Stands [t] ts) ∧ W b (i :: w) A) :
    BuildsFrom F K (Rule.advance >>= g) W := by
  intro s b s' hrun hs hsound hK
  obtain ⟨_, s₁, hadvance, hrun⟩ := bind_eq_ok hrun
  obtain ⟨rfl, _⟩ := checkSpelling_eq_ok hadvance
  obtain ⟨w, hw, hgrows, i, hi, hb⟩ := hg _ b s' hrun trivial hsound hK
  rw [← hF _ hs] at ht hi
  exact ⟨i :: w, (Stream.spells_front ht (hi _)).append hw, hgrows, hb⟩

/-- A token for no operand is taken. -/
theorem BuildsFrom.pass {g : Unit → Rule β} (hF : ∀ s, F s → s.current.kind.isSilent = true)
    (hg : BuildsFrom (fun _ => True) K (g ()) W) : BuildsFrom F K (Rule.advance >>= g) W :=
  .advance (fun s hs => s.spells_silent (hF s hs)) (fun _ _ => trivial) hg

/-- A reserved word for no operand is taken. -/
theorem BuildsFrom.passWord {v : Word} {g : Unit → Rule β} (hv : (Kind.word v).isSilent = true)
    (hg : BuildsFrom (fun _ => True) K (g ()) W) :
    BuildsFrom (fun s => F s ∧ s.current.kind.word? = some v) K (Rule.advance >>= g) W := by
  refine .pass (fun s hs => ?_) hg
  rw [Kind.eq_word_of_word? hs.2]
  exact hv

/-- A terminal for no operand is taken if it stands at the front. -/
theorem BuildsFrom.eat {t : Terminal} {g : Bool → Rule β} (ht : t.kind.isSilent = true)
    (htrue : BuildsFrom (fun _ => True) K (g true) W)
    (hfalse : BuildsFrom (fun s => F s ∧ s.current.kind ≠ t.kind) K (g false) W) :
    BuildsFrom F K (Rule.eat t >>= g) W := by
  rw [Rule.eat, bind_assoc]
  refine .at? fun b => ?_
  cases b with
  | true =>
    rw [if_pos rfl, bind_assoc]
    refine .pass (fun s hs => ?_) ?_
    · rw [eq_of_beq hs.2]
      exact ht
    · rwa [pure_bind]
  | false =>
    rw [if_neg Bool.false_ne_true, pure_bind]
    exact hfalse.weaken (fun s hs => ⟨hs.1, beq_eq_false_iff_ne.1 hs.2⟩) fun _ => id

/-- One of two rules, as a terminal says that is taken for no operand. -/
theorem BuildsFrom.ifEat {t : Terminal} {y z : Rule β} (ht : t.kind.isSilent = true)
    (hy : BuildsFrom (fun _ => True) K y W) (hz : BuildsFrom F K z W) :
    BuildsFrom F K (do if ← Rule.eat t then y else z) W := by
  refine .eat ht ?_ ?_
  · rwa [if_pos rfl]
  · rw [if_neg Bool.false_ne_true]
    exact hz.weaken (fun _ hs => hs.1) fun _ => id

theorem BuildsFrom.expect {t : Terminal} {g : Unit → Rule β} (ht : t.kind.isSilent = true)
    (hg : BuildsFrom (fun _ => True) K (g ()) W) : BuildsFrom F K (Rule.expect t >>= g) W := by
  rw [Rule.expect, bind_assoc]
  refine .eat ht ?_ ?_
  · rw [if_pos rfl, pure_bind]
    exact hg
  · exact .fails fun _ => ⟨_, _, rfl⟩

/-! ### Adding nodes -/

/-- A node that is no list is added. -/
theorem BuildsFrom.push {node : Node} {f : Form} {g : NodeId → Rule β} [Stable K]
    (hleaf : node.leaf? = some f)
    (hg : ∀ id, BuildsFrom F (fun A => K A ∧ A.Holds id f) (g id) W) :
    BuildsFrom F K (Rule.push node >>= g) W := by
  intro s b s' hrun hF hsound hK
  have hgrows : s.arena.Grows (s.arena.push node) := grows_push hleaf
  rw [bind_of_ok (show Rule.push node s = .ok s.arena.size ⟨s.stream, s.arena.push node⟩ from rfl)]
    at hrun
  obtain ⟨w, hw, hgrows', hb⟩ := hg _ _ b s' hrun hF (hgrows.sound hsound)
    ⟨Stable.mono hsound hgrows hK, holds_push hleaf⟩
  exact ⟨w, hw, hgrows.trans hgrows', hb⟩

theorem BuildsFrom.pushTag {t : Tag} {g : NodeId → Rule β} [Stable K]
    (hg : ∀ id, BuildsFrom F (fun A => K A ∧ A.Holds id (.tag t)) (g id) W) :
    BuildsFrom F K (Rule.pushTag t >>= g) W := .push rfl hg

/-- A list of nodes is added, and then another rule runs. -/
theorem BuildsFrom.pushListThen {ids : List NodeId} {l : List Form} {g : NodeId → Rule β}
    [Stable K] (hK : ∀ A, K A → A.HoldsAll ids l)
    (hg : ∀ id, BuildsFrom F (fun A => K A ∧ A.Holds id (.list l)) (g id) W) :
    BuildsFrom F K (Rule.pushList ids >>= g) W := by
  intro s b s' hrun hF hsound hs
  have hgrows : s.arena.Grows (s.arena.pushList ids) := grows_pushList
  rw [bind_of_ok (show Rule.pushList ids s = .ok s.arena.size ⟨s.stream, s.arena.pushList ids⟩
    from rfl)] at hrun
  obtain ⟨w, hw, hgrows', hb⟩ := hg _ _ b s' hrun hF (hgrows.sound hsound)
    ⟨Stable.mono hsound hgrows hs, holds_pushList hsound (hK _ hs)⟩
  exact ⟨w, hw, hgrows.trans hgrows', hb⟩

theorem BuildsFrom.taggedThen {t : Tag} {ids : List NodeId} {l : List Form} {g : NodeId → Rule β}
    [Stable K] (hK : ∀ A, K A → A.HoldsAll ids l)
    (hg : ∀ id, BuildsFrom F (fun A => K A ∧ A.Holds id (.list (.tag t :: l))) (g id) W) :
    BuildsFrom F K (Rule.tagged t ids >>= g) W := by
  rw [Rule.tagged, bind_assoc]
  refine .pushTag fun head => ?_
  refine .pushListThen (fun A hA => (hK A hA.1).cons hA.2) fun id => ?_
  exact (hg id).weaken (fun _ hs => hs) fun A hA => ⟨hA.1.1, hA.2⟩

end Sequences

section Last

variable {F : Stream → Prop} {K : Arena → Prop} {P : Form → Prop} {e : Form → List Operand}
  {U : List Operand → List Operand} {ids : List NodeId} {l : List Form}

/-- A node that is there is the result. -/
theorem BuildsFrom.give {id : NodeId} {f : Form} (hK : ∀ A, K A → A.Holds id f) (hP : P f)
    (he : e f = U []) : BuildsFrom F K (pure id) fun id w A => Built P e id (U w) A :=
  .done fun A hA => ⟨f, hK A hA, hP, he⟩

/-- A list of nodes is the result. -/
theorem BuildsFrom.pushList [Stable K] (hK : ∀ A, K A → A.HoldsAll ids l) (hP : P (.list l))
    (he : e (.list l) = U []) :
    BuildsFrom F K (Rule.pushList ids) fun id w A => Built P e id (U w) A := by
  rw [← bind_pure (Rule.pushList ids)]
  exact .pushListThen hK fun id => .give (fun A hA => hA.2) hP he

/-- A list that a tag heads is the result. -/
theorem BuildsFrom.tagged [Stable K] {t : Tag} (hK : ∀ A, K A → A.HoldsAll ids l)
    (hP : P (.list (.tag t :: l))) (he : e (.list (.tag t :: l)) = U []) :
    BuildsFrom F K (Rule.tagged t ids) fun id w A => Built P e id (U w) A := by
  rw [← bind_pure (Rule.tagged t ids)]
  exact .taggedThen hK fun id => .give (fun A hA => hA.2) hP he

/-- Nodes that are there are the result. -/
theorem BuildsFrom.giveAll {Ps : List Form → Prop} {es : List Form → List Operand}
    (hK : ∀ A, K A → A.HoldsAll ids l) (hP : Ps l) (he : es l = U []) :
    BuildsFrom F K (pure ids) fun ids w A => BuiltAll Ps es ids (U w) A :=
  .done fun A hA => ⟨l, hK A hA, hP, he⟩

/-- The token at the front is taken for a node that is no list. -/
theorem BuildsFrom.pushAtom [Stable K] {node : Node} {f : Form}
    (hleaf : node.leaf? = some f) (hF : ∀ s, F s → Spells (e f) s.rest s.advance.rest) (hP : P f) :
    BuildsFrom F K (Rule.pushAtom node) (Built P e) := by
  rw [Rule.pushAtom]
  refine .push hleaf fun id => ?_
  refine .advance (G := fun _ => True) hF (fun _ _ => trivial) ?_
  exact .give (fun A hA => hA.2) hP (List.append_nil _).symm

/-- A node for a tag is the result. -/
theorem BuildsFrom.giveTag [Stable K] {t : Tag} (hP : P (.tag t)) (he : e (.tag t) = U []) :
    BuildsFrom F K (Rule.pushTag t) fun id w A => Built P e id (U w) A := by
  rw [← bind_pure (Rule.pushTag t)]
  exact .pushTag fun id => .give (fun A hA => hA.2) hP he

/-- A name at the front is taken, and a stream as `G` says is left. -/
theorem BuildsFrom.identifier {β : Type} {G : Stream → Prop} {W : β → List Operand → Arena → Prop}
    {g : NodeId → Rule β} [Stable K] {t : Token} (ht : t.kind.isIdentifier = true)
    (hF : ∀ s, F s → s.current = t) (hG : ∀ s, F s → G s.advance)
    (hg : ∀ id, BuildsFrom G (fun A => K A ∧ A.Holds id (.name t.span)) (g id)
      fun b w A => W b (.name t.span :: w) A) : BuildsFrom F K (Rule.identifier >>= g) W := by
  rw [Rule.identifier, bind_assoc]
  refine .current fun t' => ?_
  refine .knowStream (p := t' = t) (fun s hs => hs.2.symm.trans (hF s hs.1)) ?_
  rintro rfl
  rw [if_pos ht, Rule.pushAtom, bind_assoc]
  refine .push rfl fun id => ?_
  rw [bind_assoc]
  refine .advance (w := [.name t'.span]) (fun s hs => ?_) (fun s hs => hG s hs.1) ?_
  · rw [← hs.2] at ht ⊢
    exact Stream.spells_name ht
  · rw [pure_bind]
    exact hg id

/-- A name is taken. -/
theorem builds_identifier : Builds Rule.identifier (Built IsName walk) := by
  rw [Rule.identifier]
  refine .current fun t => ?_
  split
  next ht =>
    refine .pushAtom rfl (fun s hs => ?_) (.mk _)
    rw [← hs.2] at ht ⊢
    exact Stream.spells_name ht
  next => exact .unexpected

end Last

/-! ### Repetition -/

section Repetition

variable {F : Stream → Prop} {K : Arena → Prop} {V : α → List Operand → Arena → Prop}
  {step : α → Rule (Option α)}

/-- What a step preserves holds behind a repetition; the operands of the steps come one after the
other. -/
theorem BuildsFrom.iterate [∀ a w, Stable (V a w)]
    (hstep : ∀ a w, BuildsFrom (fun _ => True) (V a w) (step a)
      (OrNone fun b w' A => V b (w ++ w') A)) (a : α) (w : List Operand) :
    BuildsFrom (fun _ => True) (V a w) (iterate step a) fun b w' A => V b (w ++ w') A := by
  intro s b s' hrun _ hsound ha
  refine iterate_induction (R := fun a s₁ => ∃ w', Spells w' s.stream.rest s₁.stream.rest ∧
    s.arena.Grows s₁.arena ∧ V a (w ++ w') s₁.arena) ?_ ?_ ?_ hrun
  · rintro a s₁ s₂ ⟨w₁, hw₁, hgrows, ha⟩ hstep₁
    have hsound₁ := hgrows.sound hsound
    obtain ⟨_, hw₂, hgrows', rfl⟩ := hstep a _ s₁ none s₂ hstep₁ trivial hsound₁ ha
    refine ⟨w₁ ++ [], hw₁.append hw₂, hgrows.trans hgrows', ?_⟩
    rw [List.append_nil]
    exact Stable.mono hsound₁ hgrows' ha
  · rintro a s₁ c s₂ ⟨w₁, hw₁, hgrows, ha⟩ hstep₁
    obtain ⟨w₂, hw₂, hgrows', hc⟩ :=
      hstep a _ s₁ (some c) s₂ hstep₁ trivial (hgrows.sound hsound) ha
    refine ⟨w₁ ++ w₂, hw₁.append hw₂, hgrows.trans hgrows', ?_⟩
    rw [← List.append_assoc]
    exact hc
  · exact ⟨[], .done _, Grows.refl _, by rwa [List.append_nil]⟩

/-- A repetition whose first step is known to give a value. -/
theorem BuildsFrom.iterateFirst [∀ a w, Stable (V a w)] {a : α}
    (hfirst : BuildsFrom F K (step a) fun o w A => ∃ b, o = some b ∧ V b w A)
    (hstep : ∀ a w, BuildsFrom (fun _ => True) (V a w) (step a)
      (OrNone fun b w' A => V b (w ++ w') A)) : BuildsFrom F K (Rule.iterate step a) V := by
  intro s b s' hrun hF hsound hK
  cases hone : step a s with
  | error e s₁ =>
    rw [iterate_of_error hone] at hrun
    cases hrun
  | ok o s₁ =>
    obtain ⟨w₁, hw₁, hgrows, c, rfl, hc⟩ := hfirst s o s₁ hone hF hsound hK
    by_cases hless : s₁.stream.size < s.stream.size
    · rw [iterate_of_some hone hless] at hrun
      obtain ⟨w₂, hw₂, hgrows', hb⟩ :=
        BuildsFrom.iterate hstep c w₁ s₁ b s' hrun trivial (hgrows.sound hsound) hc
      exact ⟨w₁ ++ w₂, hw₁.append hw₂, hgrows.trans hgrows', hb⟩
    · rw [Rule.iterate, hone] at hrun
      simp only [if_neg hless] at hrun
      cases hrun
      exact ⟨w₁, hw₁, hgrows, hc⟩

end Repetition

section Items

variable {P : Form → Prop} {e : Form → List Operand} {item : Rule NodeId} {t : Terminal}

/-- One or more items divided by a terminal. -/
theorem builds_separatedBy (ht : t.kind.isSilent = true) (h : Builds item (Built P e)) :
    Builds (separatedBy t item) (BuiltAll (Several P) (List.flatMap e)) := by
  rw [separatedBy]
  refine .node h fun id f hf => ?_
  have hstep : ∀ ids w, BuildsFrom (fun _ => True) (BuiltAll (Several P) (List.flatMap e) ids w)
      (do if ← eat t then return some (ids ++ [← item]) else return none)
      (OrNone fun ids w' A => BuiltAll (Several P) (List.flatMap e) ids (w ++ w') A) := by
    intro ids w
    refine .ifEat ht ?_ (.done fun _ _ => rfl)
    refine .bind h.from fun id w' => .done ?_
    rintro A ⟨⟨fs, hfs, hP, he⟩, f, hf, hPf, hef⟩
    exact ⟨fs ++ [f], hfs.append hf.single, hP.concat hPf, by simp [he, hef]⟩
  refine (BuildsFrom.iterate hstep [id] (e f)).weaken (fun _ hs => hs) fun A hA => ?_
  exact ⟨[f], hA.2.single, .one hf, by simp⟩

theorem builds_commaSeparated (h : Builds item (Built P walk)) :
    Builds (commaSeparated item) (BuiltAll (Several P) walkAll) := by
  refine (builds_separatedBy rfl h).imp ?_
  rintro ids w A ⟨fs, hfs, hP, he⟩
  exact ⟨fs, hfs, hP, (walkAll_eq_flatMap fs).trans he⟩

theorem builds_identifiers : Builds identifiers (BuiltAll (Several IsName) walkAll) :=
  builds_commaSeparated builds_identifier

/-- Nodes that are added only behind a terminal. -/
theorem builds_behind {Ps : List Form → Prop} {es : List Form → List Operand}
    {r : Rule (List NodeId)} (ht : t.kind.isSilent = true) (hr : Builds r (BuiltAll Ps es))
    (hP : Ps []) (he : es [] = []) : Builds (behind t r) (BuiltAll Ps es) := by
  refine .ifEat ht hr (.done fun A _ => ?_)
  exact ⟨[], holdsAll_nil, hP, he⟩

end Items

end Rule

/-- The rules one level deeper build what they are there for. -/
structure Context.Builds (c : Context) : Prop where
  expression : ∀ power, Rule.Builds (c.enter (.expression power)) (Rule.Built IsExpression walk)
  query : Rule.Builds (c.enter .query) (Rule.Built IsQuery walk)
  tableSource : Rule.Builds (c.enter .tableSource) (Rule.Built IsSource walk)

namespace Context.Builds

open Rule

variable {c : Context}

theorem expressions (h : c.Builds) :
    Rule.Builds c.expressions (BuiltAll (Several IsExpression) walkAll) :=
  builds_commaSeparated (h.expression 0)

theorem requiredQuery (h : c.Builds) : Rule.Builds c.requiredQuery (Built IsQuery walk) := by
  refine .atQuery fun b => ?_
  cases b with
  | true => exact h.query
  | false => exact .unexpected

theorem parenthesizedQuery (h : c.Builds) :
    Rule.Builds c.parenthesizedQuery (Built IsQuery walk) := by
  refine .expect rfl ?_
  refine .node h.requiredQuery.from fun query f hf => ?_
  refine .expect rfl ?_
  exact .give (fun A hA => hA.2) hf (by simp)

end Context.Builds

end TaggedSql
