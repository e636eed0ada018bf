import TaggedSql.Proofs.Lockstep.Statements
import TaggedSql.Session

/-!
# Whole sources in lockstep

Between statements the grammar tells a semicolon from the end of the source. Two runs that agree on
that too stay side by side from the first token of a source to its end.

* `Whole`: the runs agree beyond the end of a statement;
* `contexts_enter`: the rules follow each other on every level if they do where no room is left;
* `contexts_roomy`: with more levels than tokens this is so in any case;
* `outcome_parse`, `outcome_parseScript`: what becomes of two sources.
-/

namespace TaggedSql

namespace Lockstep

open Rule Statement

variable {L : Lockstep} {α β γ δ : Type} {F : Stream → Prop} {c d : Context} {m n : Nat}
  {settings settings' : Settings} {source source' : String}

/-! ### Levels -/

theorem Contexts.mono (h : L.Contexts c d m) (hn : n ≤ m) : L.Contexts c d n where
  left := h.left
  right := h.right
  expression power := Follows.mono (h.expression power) hn
  query := Follows.mono h.query hn
  tableSource := Follows.mono h.tableSource (Nat.sub_le_sub_right hn 1)

/-- The second run may have some levels more than the first. If its rules follow where the first run
has no room left, they follow on every level. -/
theorem contexts_enter (hleft : settings.overflow = L.left)
    (hright : settings'.overflow = L.right) {extra : Nat}
    (hdeep : ∀ entry n, L.Follows n (fun _ => true) (enter settings 0 entry)
      (enter settings' extra entry) L.node) (room n : Nat) :
    L.Contexts ⟨settings.overflow, enter settings room⟩
      ⟨settings'.overflow, enter settings' (extra + room)⟩ n := by
  induction room generalizing n with
  | zero =>
    exact ⟨hleft, hright, fun power => (hdeep _ n).forget, hdeep _ n, (hdeep _ (n - 1)).forget⟩
  | succ room ih => exact Contexts.mono (Contexts.body (ih n) hleft hright rfl rfl) (Nat.le_succ n)

/-- Where neither run has room left, both fail. -/
theorem follows_enter_zero {k : NodeId → Bool}
    (hdeep : ∀ s t, L.stream s t → L.excused (.tooDeep settings.maxDepth s.current) ∨
      L.failure (.tooDeep settings.maxDepth s.current) (.tooDeep settings'.maxDepth t.current))
    (entry : Entry) (n : Nat) :
    L.Follows n k (enter settings 0 entry) (enter settings' 0 entry) L.node := by
  intro s t hst _ hn
  exact FollowsFrom.fail (F := fun _ => True) (hdeep _ _ hst.stream) s t hst trivial hn

/-- With the same settings the rules follow each other on every level, if the failures correspond
where no room is left. -/
theorem contexts_context (settings : Settings) (hleft : settings.overflow = L.left)
    (hright : settings.overflow = L.right)
    (hdeep : ∀ s t, L.stream s t → L.excused (.tooDeep settings.maxDepth s.current) ∨
      L.failure (.tooDeep settings.maxDepth s.current) (.tooDeep settings.maxDepth t.current))
    (n : Nat) : L.Contexts (context settings) (context settings) n := by
  have hcontexts := contexts_enter hleft hright (follows_enter_zero hdeep) settings.maxDepth n
  rwa [Nat.zero_add] at hcontexts

/-- With room for `n` levels the rules follow each other as long as fewer than `n` tokens are ahead:
the room is never used up. -/
theorem contexts_roomy (settings settings' : Settings) (hleft : settings.overflow = L.left)
    (hright : settings'.overflow = L.right) (room : Nat) :
    L.Contexts ⟨settings.overflow, enter settings room⟩
      ⟨settings'.overflow, enter settings' room⟩ room := by
  induction room with
  | zero =>
    exact ⟨hleft, hright, fun _ _ _ _ _ h => absurd h (Nat.not_lt_zero _),
      fun _ _ _ _ h => absurd h (Nat.not_lt_zero _), fun _ _ _ _ h => absurd h (Nat.not_lt_zero _)⟩
  | succ room ih => exact Contexts.body ih hleft hright rfl rfl

/-! ### Statements and what divides them -/

/-- The two runs agree beyond the end of a statement. -/
structure Whole (L : Lockstep) : Prop where
  kind : ∀ {s t}, L.stream s t → s.current.kind = t.current.kind
  advance : ∀ {s t}, L.stream s t → s.current.kind = .symbol .semicolon →
    L.Meets s.advance t.advance
  empty : L.arena {} {}

/-- Two trees of sources that were read side by side. -/
structure Trees (L : Lockstep) (source source' : String) (t u : Tree) : Prop where
  left : t.source = source
  right : u.source = source'
  arena : L.arena t.arena u.arena
  root : L.node t.root u.root

section Whole

variable {k : γ → Bool} {W : γ → δ → Prop}

theorem FollowsFrom.atEnd (hL : L.Whole) {f : Bool → Rule γ} {g : Bool → Rule δ}
    (hf : ∀ b, L.FollowsFrom (fun s => F s ∧ s.current.isEnd = b) n k (f b) (g b) W) :
    L.FollowsFrom F n k (Rule.atEnd >>= f) (Rule.atEnd >>= g) W := by
  refine FollowsFrom.look (V := Eq) (fun s => s.current.isEnd) (fun s => s.current.isEnd)
    (fun _ => rfl) (fun _ => rfl) ?_ ?_
  · intro s t hst _
    rw [Token.isEnd, Token.isEnd, hL.kind hst]
  · rintro b _ rfl
    exact hf b

/-- A semicolon is taken in both runs or in neither. -/
theorem FollowsFrom.ifSemicolon (hL : L.Whole) {x x' : Rule γ} {y y' : Rule δ}
    (h : L.Follows (n - 1) (fun _ => false) x y W) (h' : L.FollowsFrom F n k x' y' W) :
    L.FollowsFrom F n k (Rule.eat (.symbol .semicolon) >>= fun b => if b = true then x else x')
      (Rule.eat (.symbol .semicolon) >>= fun b => if b = true then y else y') W := by
  rw [Rule.eat, bind_assoc, bind_assoc]
  refine FollowsFrom.look (V := Eq) (fun s => s.current.kind == .symbol .semicolon)
    (fun s => s.current.kind == .symbol .semicolon) (at?_run _) (at?_run _) ?_ ?_
  · intro s t hst _
    rw [hL.kind hst]
  rintro b _ rfl
  cases b with
  | false => exact h'.weaken (fun _ hs => hs.1) (Nat.le_refl n) (fun _ => id) fun _ _ => id
  | true =>
    rw [if_pos rfl, bind_assoc, bind_assoc]
    refine FollowsFrom.advanceWith (G := fun _ => True) (fun s t hst hs => ?_) (fun s t hst hs => ?_)
      (fun _ _ => trivial) h
    · rw [← hL.kind hst, eq_of_beq hs.2]
      exact ⟨Kind.noConfusion, Kind.noConfusion⟩
    · exact hL.advance hst (eq_of_beq hs.2)

end Whole

theorem follows_skipSemicolons (hL : L.Whole) :
    L.Follows n (fun _ => false) skipSemicolons skipSemicolons fun _ _ => True := by
  refine Follows.iterate (fun _ _ _ => ?_) trivial
  exact FollowsFrom.ifSemicolon hL (.done (.some trivial) rfl) (.done .none rfl)

/-- Both runs read a statement, and its tree takes all nodes with it. -/
theorem follows_tree (source source' : String) (hempty : L.arena {} {})
    (h : L.Contexts (context settings) (context settings') n) :
    L.Follows n (fun _ => true) (tree settings source) (tree settings' source')
      (L.Trees source source') := by
  refine FollowsFrom.after (follows_statement h) fun root root' hroot => ?_
  intro s t hst _ _
  exact .ok 0 ⟨rfl, rfl, hst.arena, hroot⟩ ⟨hst.stream, hempty⟩ (fun hk => nomatch hk) rfl rfl

theorem follows_extendScript (source source' : String) (hL : L.Whole)
    (h : L.Contexts (context settings) (context settings') n) {trees trees' : List Tree}
    (htrees : List.Forall₂ (L.Trees source source') trees trees') :
    L.Follows n Option.isSome (extendScript settings source trees)
      (extendScript settings' source' trees')
      (Option.Rel (List.Forall₂ (L.Trees source source'))) := by
  refine FollowsFrom.then (follows_skipSemicolons hL) fun _ _ _ => ?_
  refine FollowsFrom.atEnd hL fun b => ?_
  cases b with
  | true => exact FollowsFrom.done .none rfl
  | false =>
    refine Follows.from ?_
    refine FollowsFrom.after (follows_tree source source' hL.empty h) fun next next' hnext => ?_
    refine FollowsFrom.atEnd hL fun b => ?_
    have hdone : L.Follows (n - 1) (fun _ => false) (pure (some (trees ++ [next])))
        (pure (some (trees' ++ [next']))) (Option.Rel (List.Forall₂ (L.Trees source source'))) :=
      FollowsFrom.done (.some (List.rel_append htrees (.cons hnext .nil))) rfl
    cases b with
    | true => exact Follows.from hdone
    | false =>
      refine FollowsFrom.then (V := fun _ _ => True) (k := fun _ => false) ?_ fun _ _ _ => hdone
      rw [Rule.expect]
      exact FollowsFrom.ifSemicolon hL (.done trivial rfl) .unexpected

/-! ### Sources -/

/-- Both runs read a source that is a single statement. -/
theorem agrees_single (hL : L.Whole) (h : L.Contexts (context settings) (context settings') n)
    {s t : ParseState} (hmeet : L.Meets s.stream t.stream) (harena : L.arena s.arena t.arena)
    (hn : s.stream.size < n) :
    L.Agrees s.stream t.stream (fun _ => false) (L.Trees source source')
      (single settings source s) (single settings' source' t) := by
  refine Agrees.checkSpelling (j := 0) hmeet harena rfl rfl fun hbeside => ?_
  refine (?_ : L.Follows n _ _ _ _) s t hbeside trivial hn
  refine FollowsFrom.then (follows_tree source source' hL.empty h) fun tree tree' htree => ?_
  have hrest : ∀ n, L.Follows n (fun _ => false)
      (do
        unless ← Rule.atEnd do Rule.unexpected .endOfInput
        return tree)
      (do
        unless ← Rule.atEnd do Rule.unexpected .endOfInput
        return tree') (L.Trees source source') := by
    intro n
    refine FollowsFrom.atEnd hL fun b => ?_
    cases b with
    | true => exact FollowsFrom.done htree rfl
    | false => exact FollowsFrom.unexpected_bind
  have heither : ∀ rest : Rule Tree, (Rule.eat (.symbol .semicolon) >>= fun _ => rest) =
      (Rule.eat (.symbol .semicolon) >>= fun b => if b = true then rest else rest) := by
    intro rest
    simp only [ite_self]
  rw [heither, heither]
  exact FollowsFrom.ifSemicolon hL (hrest _) (hrest n)

/-- The statements of a script follow each other. -/
theorem follows_scriptTrees (hL : L.Whole)
    (h : L.Contexts (context settings) (context settings') n) :
    L.Follows n (fun _ => false) (Rule.iterate (extendScript settings source) [])
      (Rule.iterate (extendScript settings' source') [])
      (List.Forall₂ (L.Trees source source')) :=
  Follows.iterate (fun _ _ htrees => follows_extendScript source source' hL h htrees) .nil

/-- Both runs read a source that is a script. -/
theorem agrees_script (hL : L.Whole) (h : L.Contexts (context settings) (context settings') n)
    {s t : ParseState} (hmeet : L.Meets s.stream t.stream) (harena : L.arena s.arena t.arena)
    (hn : s.stream.size < n) :
    L.Agrees s.stream t.stream (fun _ => false) (List.Forall₂ (L.Trees source source'))
      (script settings source s) (script settings' source' t) := by
  refine Agrees.checkSpelling (j := 0) hmeet harena rfl rfl fun hbeside => ?_
  refine (?_ : L.Follows n _ _ _ _) s t hbeside trivial hn
  refine FollowsFrom.then (follows_scriptTrees hL h) fun trees trees' htrees => ?_
  cases htrees with
  | nil => exact FollowsFrom.unexpected
  | cons htree htrees => exact FollowsFrom.done (.cons htree htrees) rfl

/-- What becomes of a source in the second run, given what becomes of one in the first. -/
inductive Outcome {α β : Type} (L : Lockstep) (V : α → β → Prop) :
    Except Failure α → Except Failure β → Prop
  | ok {a b} (h : V a b) : Outcome L V (.ok a) (.ok b)
  | excused {e r} (h : L.excused e) : Outcome L V (.error e) r
  | failure {e f} (h : L.failure e f) : Outcome L V (.error e) (.error f)

theorem Outcome.imp {V V' : α → β → Prop} {r : Except Failure α} {r' : Except Failure β}
    (h : L.Outcome V r r') (hV : ∀ a b, V a b → V' a b) : L.Outcome V' r r' := by
  cases h with
  | ok hab => exact .ok (hV _ _ hab)
  | excused he => exact .excused he
  | failure he => exact .failure he

theorem Agrees.outcome {S T : Stream} {k : α → Bool} {V : α → β → Prop} {x : Rule α} {y : Rule β}
    {s t : Session} (h : L.Agrees S T k V (x s.state) (y t.state)) :
    L.Outcome V (s.run x).1 (t.run y).1 := by
  rw [Session.run, Session.run]
  generalize x s.state = r at h ⊢
  generalize y t.state = r' at h ⊢
  cases h with
  | ok _ hab => exact .ok hab
  | excused he => exact .excused he
  | failure he => exact .failure he

section Sources

variable (hL : L.Whole) (h : L.Contexts (context settings) (context settings') n)
  (hmeet : L.Meets (Stream.ofSource settings.overflow source)
    (Stream.ofSource settings'.overflow source'))
  (hn : (Stream.ofSource settings.overflow source).size < n)

include hL h hmeet hn

theorem outcome_parse :
    L.Outcome (L.Trees source source') (parse settings source) (parse settings' source') :=
  Agrees.outcome (agrees_single hL h hmeet hL.empty hn)

theorem outcome_parseScript :
    L.Outcome (List.Forall₂ (L.Trees source source')) (parseScript settings source)
      (parseScript settings' source') :=
  Agrees.outcome (agrees_script hL h hmeet hL.empty hn)

end Sources

end Lockstep

end TaggedSql
