import TaggedSql.Proofs.Lockstep.Basic

/-!
# The smallest rules in lockstep

Looking at tokens gives the same answers in both runs, taking a token leads both runs on, and adding
corresponding nodes gives corresponding nodes. None of these rules knows what the two runs have in
common beyond the laws of a `Lockstep`.
-/

namespace TaggedSql

namespace Lockstep

open Rule

variable {L : Lockstep} {α β γ δ : Type} {F G : Stream → Prop} {n : Nat} {k : γ → Bool}
  {f : α → Rule γ} {g : β → Rule δ} {V : α → β → Prop} {W : γ → δ → Prop}

/-! ### Looking at tokens -/

/-- A rule that only looks at the stream sees corresponding things in both runs. -/
theorem FollowsFrom.look {x : Rule α} {y : Rule β} (see : Stream → α) (see' : Stream → β)
    (hx : ∀ s : ParseState, x s = .ok (see s.stream) s)
    (hy : ∀ s : ParseState, y s = .ok (see' s.stream) s)
    (hsee : ∀ s t, L.stream s t → F s → V (see s) (see' t))
    (hf : ∀ a b, V a b → L.FollowsFrom (fun s => F s ∧ see s = a) n k (f a) (g b) W) :
    L.FollowsFrom F n k (x >>= f) (y >>= g) W := by
  intro s t hst hF hn
  rw [bind_of_ok (hx s), bind_of_ok (hy t)]
  exact hf _ _ (hsee _ _ hst.stream hF) s t hst ⟨hF, rfl⟩ hn

section Tests

variable {k : α → Bool} {W : α → β → Prop}

/-- A test that treats a semicolon as the end of the source has the same outcome in both runs. -/
theorem FollowsFrom.test {x : Rule δ} (test : Kind → δ) {f : δ → Rule α} {g : δ → Rule β}
    (hx : ∀ s : ParseState, x s = .ok (test s.stream.current.kind) s)
    (htest : test (.symbol .semicolon) = test .endOfInput)
    (hf : ∀ d, L.FollowsFrom (fun s => F s ∧ test s.current.kind = d) n k (f d) (g d) W) :
    L.FollowsFrom F n k (x >>= f) (x >>= g) W := by
  refine FollowsFrom.look (V := Eq) (fun s => test s.current.kind) (fun s => test s.current.kind)
    hx hx ?_ ?_
  · intro s t hst _
    exact (L.front hst).test test htest
  · rintro d _ rfl
    exact hf d

theorem FollowsFrom.at? {t : Terminal} {f : Bool → Rule α} {g : Bool → Rule β}
    (ht : t.kind.closes = false)
    (hf : ∀ b, L.FollowsFrom (fun s => F s ∧ (s.current.kind == t.kind) = b) n k (f b) (g b) W) :
    L.FollowsFrom F n k (Rule.at? t >>= f) (Rule.at? t >>= g) W := by
  refine FollowsFrom.test (fun kind => kind == t.kind) (at?_run t) ?_ hf
  have hne : ∀ kind : Kind, kind.closes = true → (kind == t.kind) = false := by
    intro kind hkind
    rw [beq_eq_false_iff_ne]
    rintro rfl
    rw [ht] at hkind
    cases hkind
  rw [hne _ rfl, hne _ rfl]

theorem FollowsFrom.atQuery {f : Bool → Rule α} {g : Bool → Rule β}
    (hf : ∀ b, L.FollowsFrom F n k (f b) (g b) W) :
    L.FollowsFrom F n k (Rule.atQuery >>= f) (Rule.atQuery >>= g) W :=
  FollowsFrom.test Kind.startsQuery atQuery_run rfl fun b =>
    (hf b).weaken (fun _ h => h.1) (Nat.le_refl n) (fun _ => id) fun _ _ => id

theorem FollowsFrom.atPlainIdentifier {f : Bool → Rule α} {g : Bool → Rule β}
    (hf : ∀ b, L.FollowsFrom (fun s => F s ∧ (s.current.kind == .identifier false) = b) n k (f b)
      (g b) W) :
    L.FollowsFrom F n k (Rule.atPlainIdentifier >>= f) (Rule.atPlainIdentifier >>= g) W :=
  FollowsFrom.test (fun kind => kind == .identifier false) atPlainIdentifier_run rfl hf

/-- The reserved word at the front is the same in both runs. -/
theorem FollowsFrom.currentWord? {f : Option Word → Rule α} {g : Option Word → Rule β}
    (hf : ∀ w, L.FollowsFrom (fun s => F s ∧ s.current.kind.word? = w) n k (f w) (g w) W) :
    L.FollowsFrom F n k (Rule.currentWord? >>= f) (Rule.currentWord? >>= g) W :=
  FollowsFrom.test Kind.word? currentWord?_run rfl hf

end Tests

/-- Two tokens at the front of streams that correspond. -/
structure Tokens (L : Lockstep) (t u : Token) : Prop where
  alike : t.kind.Alike u.kind
  text : t.kind.closes = false → t.text = u.text
  span : t.kind.closes = false → L.span t.span u.span
  range : L.left = .reject → t.kind = .leastMagnitude →
    L.excused (.lexical (.integerRange t.text.toList) t) ∨
      L.right = .reject ∧ L.failure (.lexical (.integerRange t.text.toList) t)
        (.lexical (.integerRange u.text.toList) u)

theorem FollowsFrom.current {f : Token → Rule γ} {g : Token → Rule δ}
    (hf : ∀ t u, L.Tokens t u → L.FollowsFrom (fun s => F s ∧ s.current = t) n k (f t) (g u) W) :
    L.FollowsFrom F n k (Rule.current >>= f) (Rule.current >>= g) W := by
  refine FollowsFrom.look (V := L.Tokens) Stream.current Stream.current current_run current_run ?_ hf
  intro s t hst _
  exact ⟨L.front hst, L.text hst, L.frontSpan hst, fun hleft => L.range hleft hst⟩

/-- The token behind the front looks alike in both runs if no statement ends at the front. -/
theorem FollowsFrom.peekSecond {t : Token} {f : Token → Rule γ} {g : Token → Rule δ}
    (hF : ∀ s, F s → s.current = t)
    (hf : ∀ u v, (t.kind.closes = false → u.kind.AlikeAhead v.kind) →
      L.FollowsFrom (fun s => F s ∧ s.peek 1 = u) n k (f u) (g v) W) :
    L.FollowsFrom F n k (Rule.peek 1 >>= f) (Rule.peek 1 >>= g) W := by
  refine FollowsFrom.look (V := fun u v => t.kind.closes = false → u.kind.AlikeAhead v.kind)
    (fun s => s.peek 1) (fun s => s.peek 1) (peek_run 1) (peek_run 1) ?_ hf
  intro s s' hst hs ht
  rw [← hF s hs] at ht
  exact L.second hst ht

/-- So does the one behind a point. -/
theorem FollowsFrom.peekThird {t t' : Token} {f : Token → Rule γ} {g : Token → Rule δ}
    (hF : ∀ s, F s → s.current = t ∧ s.peek 1 = t')
    (hf : ∀ u v, (t.kind.closes = false → t'.kind = .symbol .dot → u.kind.AlikeAhead v.kind) →
      L.FollowsFrom (fun s => F s ∧ s.peek 2 = u) n k (f u) (g v) W) :
    L.FollowsFrom F n k (Rule.peek 2 >>= f) (Rule.peek 2 >>= g) W := by
  refine FollowsFrom.look
    (V := fun u v => t.kind.closes = false → t'.kind = .symbol .dot → u.kind.AlikeAhead v.kind)
    (fun s => s.peek 2) (fun s => s.peek 2) (peek_run 2) (peek_run 2) ?_ hf
  intro s s' hst hs ht ht'
  obtain ⟨hcurrent, hpeek⟩ := hF s hs
  rw [← hcurrent] at ht
  rw [← hpeek] at ht'
  exact L.third hst ht ht'

/-! ### Taking tokens -/

/-- Two runs that meet tokens to go on with, or misspelled ones. -/
theorem Agrees.checkSpelling {f : Unit → Rule γ} {g : Unit → Rule δ} {s t : ParseState} {S T : Stream}
    (hmeet : L.Meets s.stream t.stream) (harena : L.arena s.arena t.arena) {j : Nat}
    (hs : s.stream.size + j = S.size) (ht : t.stream.size + j = T.size)
    (hrest : L.Beside s t → L.Agrees S T k W (f () s) (g () t)) :
    L.Agrees S T k W ((Rule.checkSpelling >>= f) s) ((Rule.checkSpelling >>= g) t) := by
  cases hmeet with
  | goOn hstream hgood hgood' =>
    rw [bind_of_ok (checkSpelling_run hgood), bind_of_ok (checkSpelling_run hgood')]
    exact hrest ⟨hstream, harena⟩
  | excused hbad h =>
    rw [bind_of_error (checkSpelling_run_problem hbad)]
    exact .excused h
  | failure hbad hbad' h =>
    rw [bind_of_error (checkSpelling_run_problem hbad),
      bind_of_error (checkSpelling_run_problem hbad')]
    exact .failure h j hs ht

/-- A token is taken in both runs; behind it the first run may be known to be as `G` says. -/
theorem FollowsFrom.advanceWith {f : Unit → Rule γ} {g : Unit → Rule δ}
    (hend : ∀ s t, L.stream s t → F s →
      s.current.kind ≠ .endOfInput ∧ t.current.kind ≠ .endOfInput)
    (hmeet : ∀ s t, L.stream s t → F s → L.Meets s.advance t.advance)
    (hG : ∀ s, F s → G s.advance)
    (hf : L.FollowsFrom G (n - 1) (fun _ => false) (f ()) (g ()) W) :
    L.FollowsFrom F n k (Rule.advance >>= f) (Rule.advance >>= g) W := by
  intro s t hst hs hn
  have hsize := Stream.size_advance (hend _ _ hst.stream hs).1
  have hsize' := Stream.size_advance (hend _ _ hst.stream hs).2
  have hnext : ∀ {α : Type} (h : Unit → Rule α) (s : ParseState), (Rule.advance >>= h) s =
      (Rule.checkSpelling >>= h) ⟨s.stream.advance, s.arena⟩ := fun _ _ => rfl
  rw [hnext, hnext]
  refine Agrees.checkSpelling (hmeet _ _ hst.stream hs) hst.arena hsize hsize' fun hbeside => ?_
  have hrest := hf _ _ hbeside (hG _ hs) (show s.stream.advance.size < n - 1 by omega)
  generalize f () _ = r at hrest ⊢
  generalize g () _ = r' at hrest ⊢
  cases hrest with
  | excused he => exact .excused he
  | failure he j hs' ht' =>
    change _ = s.stream.advance.size at hs'
    change _ = t.stream.advance.size at ht'
    exact .failure he (j + 1) (by omega) (by omega)
  | ok j hcd hbeside' _ hs' ht' =>
    refine .ok (j + 1) hcd hbeside' (fun _ => by omega) ?_ ?_
    · change _ = s.stream.advance.size at hs'
      omega
    · change _ = t.stream.advance.size at ht'
      omega

theorem ne_end_of_open {kind : Kind} (h : kind.closes = false) : kind ≠ .endOfInput := by
  rintro rfl
  cases h

/-- A token at which no statement ends is taken in both runs. -/
theorem FollowsFrom.advanceTo {f : Unit → Rule γ} {g : Unit → Rule δ}
    (hF : ∀ s, F s → s.current.kind.closes = false) (hG : ∀ s, F s → G s.advance)
    (hf : L.FollowsFrom G (n - 1) (fun _ => false) (f ()) (g ()) W) :
    L.FollowsFrom F n k (Rule.advance >>= f) (Rule.advance >>= g) W := by
  refine FollowsFrom.advanceWith (fun s t hst hs => ⟨ne_end_of_open (hF s hs), ?_⟩)
    (fun s t hst hs => L.advance hst (hF s hs)) hG hf
  apply ne_end_of_open
  rw [← (L.front hst).closes_eq]
  exact hF s hs

theorem FollowsFrom.advance (hF : ∀ s, F s → s.current.kind.closes = false) :
    L.FollowsFrom F n (fun _ => true) Rule.advance Rule.advance fun _ _ => True :=
  .of_bind_pure (.advanceTo (G := fun _ => True) hF (fun _ _ => trivial) (.done trivial rfl))

/-- A failure is followed by a corresponding one. -/
theorem FollowsFrom.fail {e e' : Failure} (h : L.excused e ∨ L.failure e e') :
    L.FollowsFrom F n k (throw e) (throw e') W := by
  intro s t _ _ _
  rcases h with h | h
  · exact .excused h
  · exact .failure h 0 rfl rfl

theorem FollowsFrom.unexpected {e : Expectation} :
    L.FollowsFrom F n k (Rule.unexpected e) (Rule.unexpected e) W := by
  intro s t hst hs hn
  exact FollowsFrom.fail (L.unexpected e hst.stream) s t hst hs hn

/-- A failure is followed, whatever would come behind it. -/
theorem FollowsFrom.unexpected_bind {e : Expectation} {x : α → Rule γ} {y : β → Rule δ} :
    L.FollowsFrom F n k (Rule.unexpected e >>= x) (Rule.unexpected e >>= y) W :=
  FollowsFrom.then (V := fun _ _ => False) (k := fun _ => false) .unexpected fun _ _ h => h.elim

/-- A terminal is taken in both runs or in neither. -/
theorem FollowsFrom.ifEat {t : Terminal} {x x' : Rule γ} {y y' : Rule δ}
    (ht : t.kind.closes = false) (h : L.Follows (n - 1) (fun _ => false) x y W)
    (h' : L.FollowsFrom F n k x' y' W) :
    L.FollowsFrom F n k (eat t >>= fun b => if b = true then x else x')
      (eat t >>= fun b => if b = true then y else y') W := by
  rw [eat, bind_assoc, bind_assoc]
  refine FollowsFrom.at? ht fun b => ?_
  cases b with
  | false =>
    refine h'.weaken (fun _ hs => hs.1) (Nat.le_refl n) (fun _ => id) fun _ _ => id
  | true =>
    rw [if_pos rfl, bind_assoc, bind_assoc]
    refine FollowsFrom.after (.advance fun s hs => ?_) fun _ _ _ => h
    rw [eq_of_beq hs.2]
    exact ht

theorem FollowsFrom.expect {t : Terminal} (ht : t.kind.closes = false) :
    L.FollowsFrom F n (fun _ => true) (Rule.expect t) (Rule.expect t) fun _ _ => True := by
  rw [Rule.expect]
  show L.FollowsFrom F n _ (eat t >>= fun b => if b = true then _ else _)
    (eat t >>= fun b => if b = true then _ else _) _
  exact FollowsFrom.ifEat ht (FollowsFrom.done trivial rfl) FollowsFrom.unexpected

/-- A terminal that may be taken, whatever follows. -/
theorem FollowsFrom.eat {t : Terminal} (ht : t.kind.closes = false) :
    L.FollowsFrom F n (fun b => b) (Rule.eat t) (Rule.eat t) Eq := by
  rw [Rule.eat]
  refine FollowsFrom.at? ht fun b => ?_
  cases b with
  | false => exact FollowsFrom.done rfl rfl
  | true =>
    refine FollowsFrom.after (.advance fun s hs => ?_) fun _ _ _ => .done rfl rfl
    rw [eq_of_beq hs.2]
    exact ht

/-! ### Adding nodes -/

theorem FollowsFrom.push {a b : Node} (h : Node.Matches L.span a b) :
    L.FollowsFrom F n (fun _ => false) (Rule.push a) (Rule.push b) L.node := by
  intro s t hst _ _
  obtain ⟨hid, harena⟩ := L.push hst.arena h
  exact .ok 0 hid ⟨hst.stream, harena⟩ (fun hk => nomatch hk) rfl rfl

theorem FollowsFrom.pushTag (t : Tag) :
    L.FollowsFrom F n (fun _ => false) (Rule.pushTag t) (Rule.pushTag t) L.node :=
  FollowsFrom.push (.tag t)

theorem FollowsFrom.pushList {ids ids' : List NodeId} (h : List.Forall₂ L.node ids ids') :
    L.FollowsFrom F n (fun _ => false) (Rule.pushList ids) (Rule.pushList ids') L.node := by
  intro s t hst _ _
  obtain ⟨hid, harena⟩ := L.pushList hst.arena h
  exact .ok 0 hid ⟨hst.stream, harena⟩ (fun hk => nomatch hk) rfl rfl

theorem FollowsFrom.tagged (t : Tag) {ids ids' : List NodeId} (h : List.Forall₂ L.node ids ids') :
    L.FollowsFrom F n (fun _ => false) (Rule.tagged t ids) (Rule.tagged t ids') L.node :=
  (FollowsFrom.pushTag t).then fun _ _ hhead => FollowsFrom.pushList (.cons hhead h)

/-- A node is added for a token at which no statement ends; behind it the first run may be known to be
as `G` says. -/
theorem FollowsFrom.pushAtomTo {a b : Node} {f : NodeId → Rule γ} {g : NodeId → Rule δ}
    (hF : ∀ s, F s → s.current.kind.closes = false) (hG : ∀ s, F s → G s.advance)
    (h : Node.Matches L.span a b)
    (hf : ∀ id id', L.node id id' → L.FollowsFrom G (n - 1) (fun _ => false) (f id) (g id') W) :
    L.FollowsFrom F n k (Rule.pushAtom a >>= f) (Rule.pushAtom b >>= g) W := by
  intro s t hst hs hn
  obtain ⟨hid, harena⟩ := L.push hst.arena h
  -- The node is added before its token is taken, so the front is still as it was.
  have hrest : L.FollowsFrom F n k (Rule.advance >>= fun _ => f s.arena.size)
      (Rule.advance >>= fun _ => g t.arena.size) W := FollowsFrom.advanceTo hF hG (hf _ _ hid)
  have hrun := hrest ⟨s.stream, s.arena.push a⟩ ⟨t.stream, t.arena.push b⟩ ⟨hst.stream, harena⟩ hs hn
  rw [Rule.pushAtom, Rule.pushAtom, bind_assoc, bind_assoc]
  simp only [bind_assoc, pure_bind]
  exact hrun

theorem FollowsFrom.pushAtom {a b : Node} (hF : ∀ s, F s → s.current.kind.closes = false)
    (h : Node.Matches L.span a b) :
    L.FollowsFrom F n (fun _ => true) (Rule.pushAtom a) (Rule.pushAtom b) L.node :=
  .of_bind_pure (.pushAtomTo (G := fun _ => True) hF (fun _ _ => trivial) h fun _ _ hid =>
    .done hid rfl)

/-- A name is taken and added in both runs. -/
theorem FollowsFrom.identifierTo {f : NodeId → Rule γ} {g : NodeId → Rule δ}
    (hG : ∀ s, F s → G s.advance)
    (hf : ∀ id id', L.node id id' → L.FollowsFrom G (n - 1) (fun _ => false) (f id) (g id') W) :
    L.FollowsFrom F n k (Rule.identifier >>= f) (Rule.identifier >>= g) W := by
  rw [Rule.identifier, bind_assoc, bind_assoc]
  refine FollowsFrom.current fun t u htu => ?_
  have hkind : t.kind.isIdentifier = u.kind.isIdentifier := htu.alike.test _ rfl
  rw [← hkind, ite_bind, ite_bind]
  cases ht : t.kind.isIdentifier with
  | false => exact FollowsFrom.unexpected_bind
  | true =>
    have hopen : t.kind.closes = false := by
      cases hkind : t.kind <;> rw [hkind] at ht <;> first | rfl | cases ht
    refine FollowsFrom.pushAtomTo (fun s hs => ?_) (fun s hs => hG s hs.1) (.name (htu.span hopen)) hf
    rw [hs.2]
    exact hopen

theorem FollowsFrom.identifier :
    L.FollowsFrom F n (fun _ => true) Rule.identifier Rule.identifier L.node :=
  .of_bind_pure (.identifierTo (G := fun _ => True) (fun _ _ => trivial) fun _ _ hid =>
    .done hid rfl)

/-! ### Several items -/

/-- A rule that adds several nodes, and then another one. -/
theorem FollowsFrom.thenAll {x y : Rule (List NodeId)} {f : List NodeId → Rule γ}
    {g : List NodeId → Rule δ}
    (h : L.FollowsFrom F n (fun _ => false) x y (List.Forall₂ L.node))
    (hf : ∀ ids ids', List.Forall₂ L.node ids ids' → L.Follows n k (f ids) (g ids') W) :
    L.FollowsFrom F n k (x >>= f) (y >>= g) W := h.then hf

/-- What stands behind a terminal is added in both runs or in neither. -/
theorem FollowsFrom.behind {t : Terminal} {x y : Rule (List NodeId)} (ht : t.kind.closes = false)
    (h : L.Follows (n - 1) (fun _ => false) x y (List.Forall₂ L.node)) :
    L.FollowsFrom F n (fun _ => false) (Rule.behind t x) (Rule.behind t y)
      (List.Forall₂ L.node) :=
  FollowsFrom.ifEat ht h (FollowsFrom.done .nil rfl)

/-- Items divided by a terminal follow if each item does. -/
theorem Follows.separatedBy {t : Terminal} {x : Rule α} {y : Rule β} {k : α → Bool}
    (ht : t.kind.closes = false) (h : L.Follows n k x y V) :
    L.Follows n (fun _ => false) (Rule.separatedBy t x) (Rule.separatedBy t y)
      (List.Forall₂ V) := by
  refine FollowsFrom.then h fun a b hab => ?_
  refine Follows.iterate (fun as bs habs => ?_) (.cons hab .nil)
  refine FollowsFrom.ifEat ht ?_ (FollowsFrom.done .none rfl)
  refine FollowsFrom.then (Follows.mono h (Nat.sub_le n 1)) fun a b hab => ?_
  exact FollowsFrom.done (.some (List.rel_append habs (.cons hab .nil))) rfl

theorem Follows.commaSeparated {x : Rule α} {y : Rule β} {k : α → Bool}
    (h : L.Follows n k x y V) :
    L.Follows n (fun _ => false) (Rule.commaSeparated x) (Rule.commaSeparated y)
      (List.Forall₂ V) := Follows.separatedBy rfl h

theorem Follows.identifiers :
    L.Follows n (fun _ => false) Rule.identifiers Rule.identifiers (List.Forall₂ L.node) :=
  Follows.commaSeparated FollowsFrom.identifier

end Lockstep

end TaggedSql
