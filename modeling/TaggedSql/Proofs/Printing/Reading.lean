import TaggedSql.Proofs.Grammar.Parts
import TaggedSql.Proofs.Grammar.Running
import TaggedSql.Proofs.Printing.Spelling
import TaggedSql.Proofs.Tree.Datum

/-!
# Reading printed pieces

A logic for rules at work on a printed source. What a rule is known to do is said about pieces: it
takes some of them from the front, leaves the rest, and gives a value of which something is known.
Knowledge about nodes is kept while further nodes are added.

* `Leads`: a rule takes pieces and goes on as another rule does with a value that it has found;
* `Takes`: a rule takes pieces and gives a value;
* one statement for each way of looking at tokens, taking them and adding nodes;
* `Leads.extend`, `Leads.close`: repetition, one step at a time.
-/

namespace TaggedSql

namespace Piece

/-- The kind of the piece `n` places ahead; behind the last piece the source ends. -/
def kindAt (n : Nat) (ps : List Piece) : Kind := ps[n]?.elim .endOfInput kind

@[simp]
theorem kindAt_nil (n : Nat) : kindAt n [] = .endOfInput := rfl

@[simp]
theorem kindAt_zero_cons (p : Piece) (ps : List Piece) : kindAt 0 (p :: ps) = p.kind := rfl

@[simp]
theorem kindAt_succ_cons (n : Nat) (p : Piece) (ps : List Piece) :
    kindAt (n + 1) (p :: ps) = kindAt n ps := by
  rw [kindAt, kindAt, List.getElem?_cons_succ]

/-- No printed piece is misspelled. -/
theorem kindAt_ne_problem (n : Nat) (ps : List Piece) (problem : Problem) :
    kindAt n ps ≠ .problem problem := by
  rw [kindAt]
  cases ps[n]? with
  | none => simp
  | some p => exact p.proper.2 problem

end Piece

open Piece Arena

variable {source : String} {ps qs rest : List Piece} {p : Piece}

/-! ### The front of a printed stream -/

namespace Laid

theorem bare_getElem? {ts : List Token} (h : Laid source ts ps) (n : Nat) :
    ts[n]?.map Token.bare = ps[n]?.map Piece.bare := by
  induction h generalizing n with
  | nil => rfl
  | cons hbare _ _ _ ih =>
    cases n with
    | zero => simp [hbare]
    | succ n => simpa using ih n

theorem length_eq {ts : List Token} (h : Laid source ts ps) : ts.length = ps.length := by
  induction h with
  | nil => rfl
  | cons _ _ _ _ ih => simp [ih]

/-- The kinds ahead are those of the pieces. -/
theorem kind_peek {s : Stream} (h : Laid source s.ahead ps) (n : Nat) :
    (s.peek n).kind = kindAt n ps := by
  have hbare := h.bare_getElem? n
  rw [Stream.peek, kindAt]
  cases ht : s.ahead[n]? with
  | none =>
    rw [ht] at hbare
    cases hp : ps[n]? with
    | none => rfl
    | some p => rw [hp] at hbare; cases hbare
  | some t =>
    rw [ht] at hbare
    cases hp : ps[n]? with
    | none => rw [hp] at hbare; cases hbare
    | some p =>
      rw [hp] at hbare
      exact congrArg Prod.fst (Option.some.inj hbare)

/-- The token of the first piece stands before those of the others. -/
theorem exists_cons {ts : List Token} (h : Laid source ts (p :: ps)) : ∃ t more, ts = t :: more ∧
    t.bare = p.bare ∧ t.span.slice source = t.text ∧
    (∀ ws, ws <+: more → (∀ w ∈ t :: ws, w.kind = .identifier false) →
      (Span.mk t.span.start (Token.lastStop t.span.stop ws)).slice source =
        String.ofList (Text.spaced (t.text.toList :: ws.map fun w => w.text.toList))) ∧
    Laid source more ps := by
  cases h with
  | cons hbare hslice hwords hrest => exact ⟨_, _, rfl, hbare, hslice, hwords, hrest⟩

/-- The token at the front is that of the first piece, and its span covers its text. -/
theorem current_cons {s : Stream} (h : Laid source s.ahead (p :: ps)) :
    s.current.bare = p.bare ∧ s.current.span.slice source = s.current.text := by
  obtain ⟨t, more, hahead, hbare, hslice, _⟩ := h.exists_cons
  have ht : s.current = t := by rw [Stream.current, Stream.peek, hahead]; rfl
  rw [ht]
  exact ⟨hbare, hslice⟩

theorem advance {s : Stream} (h : Laid source s.ahead (p :: ps)) :
    Laid source s.advance.ahead ps := by
  obtain ⟨t, more, hahead, _, _, _, hrest⟩ := h.exists_cons
  show Laid source s.ahead.tail ps
  rw [hahead]
  exact hrest

end Laid

namespace Rule

/-! ### Rules that take pieces -/

variable {α β γ : Type} {K : Arena → Prop} {r : Rule β} {P : α → Arena → Prop}
  {Q : γ → Arena → Prop} {next : γ → Rule β}

/-- On every printed source whose arena is as `K` says, a rule takes the pieces, leaves the rest, and
goes on as `next` does with a value as `P` says. -/
def Leads (source : String) (K : Arena → Prop) (r : Rule β) (ps rest : List Piece)
    (P : α → Arena → Prop) (next : α → Rule β) : Prop :=
  ∀ s : ParseState, Laid source s.stream.ahead (ps ++ rest) → s.arena.Sound → K s.arena →
    ∃ (a : α) (s' : ParseState), r s = next a s' ∧ Laid source s'.stream.ahead rest ∧
      s.arena.Grows s'.arena ∧ P a s'.arena

/-- A rule takes the pieces, leaves the rest, and gives a value as `P` says. -/
abbrev Takes (source : String) (K : Arena → Prop) (r : Rule α) (ps rest : List Piece)
    (P : α → Arena → Prop) : Prop := Leads source K r ps rest P pure

theorem Leads.weaken {L : Arena → Prop} {next : α → Rule β}
    (h : Leads source K r ps rest P next) (hL : ∀ A, L A → K A) :
    Leads source L r ps rest P next :=
  fun s hs hsound hs' => h s hs hsound (hL _ hs')

theorem Leads.imp {P' : α → Arena → Prop} {next : α → Rule β}
    (h : Leads source K r ps rest P next) (hP : ∀ a A, P a A → P' a A) :
    Leads source K r ps rest P' next := by
  intro s hs hsound hK
  obtain ⟨a, s', hrun, hrest, hgrows, ha⟩ := h s hs hsound hK
  exact ⟨a, s', hrun, hrest, hgrows, hP a _ ha⟩

/-- What follows from the knowledge about the arena alone may be used. -/
theorem Leads.know {next : α → Rule β} {p : Prop} (hK : ∀ A, K A → p)
    (h : p → Leads source K r ps rest P next) : Leads source K r ps rest P next :=
  fun s hs hsound hs' => h (hK _ hs') s hs hsound hs'

/-- A rule that is the next one already takes nothing. -/
theorem Leads.here {a : α} {next : α → Rule β} (h : ∀ A, K A → P a A) :
    Leads source K (next a) [] rest P next := by
  intro s hs _ hK
  exact ⟨a, s, rfl, hs, Grows.refl _, h _ hK⟩

/-- A rule that gives a value takes nothing. -/
theorem Takes.done {a : α} (h : ∀ A, K A → P a A) : Takes source K (pure a) [] rest P := Leads.here h

/-- A rule that takes pieces, and then another one, with what was known before still known. -/
theorem Takes.bind [Stable K] {m : Rule α} {f : α → Rule β}
    (h : Takes source K m ps (qs ++ rest) P)
    (hf : ∀ a, Leads source (fun A => K A ∧ P a A) (f a) qs rest Q next) :
    Leads source K (m >>= f) (ps ++ qs) rest Q next := by
  intro s hs hsound hK
  rw [List.append_assoc] at hs
  obtain ⟨a, s₁, hrun, hrest, hgrows, ha⟩ := h s hs hsound hK
  obtain ⟨b, s₂, hrun', hrest', hgrows', hb⟩ :=
    hf a s₁ hrest (hgrows.sound hsound) ⟨Stable.mono hsound hgrows hK, ha⟩
  exact ⟨b, s₂, (bind_of_ok hrun).trans hrun', hrest', hgrows.trans hgrows', hb⟩

/-- A rule about which nothing need be known before, and then another one. -/
theorem Takes.seq [Stable K] {m : Rule α} {f : α → Rule β}
    (h : Takes source (fun _ => True) m ps (qs ++ rest) P)
    (hf : ∀ a, Leads source (fun A => K A ∧ P a A) (f a) qs rest Q next) :
    Leads source K (m >>= f) (ps ++ qs) rest Q next :=
  Takes.bind (h.weaken fun _ _ => trivial) hf

/-- A rule that takes one piece, and then another one. -/
theorem Takes.seqCons [Stable K] {m : Rule α} {f : α → Rule β}
    (h : Takes source (fun _ => True) m [p] (qs ++ rest) P)
    (hf : ∀ a, Leads source (fun A => K A ∧ P a A) (f a) qs rest Q next) :
    Leads source K (m >>= f) (p :: qs) rest Q next := Takes.seq h hf

/-- A rule whose value is known before, and then another one. -/
theorem Takes.seqEq [Stable K] {m : Rule α} {f : α → Rule β} {v : α}
    (h : Takes source (fun _ => True) m ps (qs ++ rest) fun a _ => a = v)
    (hf : Leads source K (f v) qs rest Q next) :
    Leads source K (m >>= f) (ps ++ qs) rest Q next := by
  refine Takes.seq h fun a => Leads.know (fun A hA => hA.2) ?_
  rintro rfl
  exact hf.weaken fun A hA => hA.1

/-- A rule that takes nothing, and then another one. -/
theorem Takes.pass [Stable K] {m : Rule α} {f : α → Rule β}
    (h : Takes source (fun _ => True) m [] (qs ++ rest) P)
    (hf : ∀ a, Leads source (fun A => K A ∧ P a A) (f a) qs rest Q next) :
    Leads source K (m >>= f) qs rest Q next := Takes.seq h hf

/-- A rule that takes nothing but needs what is known, and then another one. -/
theorem Takes.bindPass [Stable K] {m : Rule α} {f : α → Rule β}
    (h : Takes source K m [] (qs ++ rest) P)
    (hf : ∀ a, Leads source (fun A => K A ∧ P a A) (f a) qs rest Q next) :
    Leads source K (m >>= f) qs rest Q next := Takes.bind h hf

/-- A rule that takes nothing and whose value is known before, and then another one. -/
theorem Takes.passEq [Stable K] {m : Rule α} {f : α → Rule β} {v : α}
    (h : Takes source (fun _ => True) m [] (qs ++ rest) fun a _ => a = v)
    (hf : Leads source K (f v) qs rest Q next) :
    Leads source K (m >>= f) qs rest Q next := Takes.seqEq h hf

/-- A rule that takes pieces goes on as the next one does. -/
theorem Takes.leads {m : Rule α} {next : α → Rule β} (h : Takes source K m ps rest P) :
    Leads source K (m >>= next) ps rest P next := by
  intro s hs hsound hK
  obtain ⟨a, s', hrun, hrest, hgrows, ha⟩ := h s hs hsound hK
  exact ⟨a, s', bind_of_ok hrun, hrest, hgrows, ha⟩

/-- A rule may be followed by the one that gives its value back. -/
theorem Takes.of_bind_pure {m : Rule α}
    (h : Takes source K (m >>= pure) ps rest P) : Takes source K m ps rest P := by
  rwa [bind_pure] at h

/-! ### Looking at tokens -/

section Looking

variable {f : α → Rule β}

/-- A rule that only looks at the pieces ahead finds something that is known of them. -/
theorem Leads.look {m : Rule α} {R : α → Prop}
    (h : ∀ s : ParseState, Laid source s.stream.ahead (ps ++ rest) → ∃ a, m s = .ok a s ∧ R a)
    (hf : ∀ a, R a → Leads source K (f a) ps rest Q next) :
    Leads source K (m >>= f) ps rest Q next := by
  intro s hs hsound hK
  obtain ⟨a, hrun, ha⟩ := h s hs
  rw [bind_of_ok hrun]
  exact hf a ha s hs hsound hK

theorem Leads.peek {n : Nat} {f : Token → Rule β}
    (hf : ∀ t : Token, t.kind = kindAt n (ps ++ rest) → Leads source K (f t) ps rest Q next) :
    Leads source K (Rule.peek n >>= f) ps rest Q next :=
  Leads.look (fun s hs => ⟨s.stream.peek n, peek_run n s, hs.kind_peek n⟩) hf

theorem Leads.current {f : Token → Rule β}
    (hf : ∀ t : Token, t.kind = kindAt 0 (ps ++ rest) → Leads source K (f t) ps rest Q next) :
    Leads source K (Rule.current >>= f) ps rest Q next := Leads.peek hf

/-- The token of the first piece, with the text that its span covers. -/
theorem Leads.currentPiece {f : Token → Rule β}
    (hf : ∀ t : Token, t.kind = p.kind → t.text = String.ofList p.body →
      t.span.slice source = t.text → Leads source K (f t) (p :: ps) rest Q next) :
    Leads source K (Rule.current >>= f) (p :: ps) rest Q next := by
  refine Leads.look (R := fun t => t.bare = p.bare ∧ t.span.slice source = t.text)
    (fun s hs => ⟨s.stream.current, current_run s, hs.current_cons⟩) fun t ht => ?_
  exact hf t (congrArg Prod.fst ht.1) (congrArg Prod.snd ht.1) ht.2

theorem Leads.at? {t : Terminal} {f : Bool → Rule β}
    (hf : Leads source K (f (kindAt 0 (ps ++ rest) == t.kind)) ps rest Q next) :
    Leads source K (Rule.at? t >>= f) ps rest Q next := by
  refine Leads.look (R := fun b => b = (kindAt 0 (ps ++ rest) == t.kind)) ?_ fun b hb => hb ▸ hf
  intro s hs
  rw [← hs.kind_peek 0]
  exact ⟨_, rfl, rfl⟩

theorem Leads.currentWord? {f : Option Word → Rule β}
    (hf : Leads source K (f (kindAt 0 (ps ++ rest)).word?) ps rest Q next) :
    Leads source K (Rule.currentWord? >>= f) ps rest Q next := by
  refine Leads.look (R := fun w => w = (kindAt 0 (ps ++ rest)).word?) ?_ fun w hw => hw ▸ hf
  intro s hs
  rw [← hs.kind_peek 0]
  exact ⟨_, rfl, rfl⟩

theorem Leads.atPlainIdentifier {f : Bool → Rule β}
    (hf : Leads source K (f (kindAt 0 (ps ++ rest) == .identifier false)) ps rest Q next) :
    Leads source K (Rule.atPlainIdentifier >>= f) ps rest Q next := by
  refine Leads.look (R := fun b => b = (kindAt 0 (ps ++ rest) == .identifier false)) ?_
    fun b hb => hb ▸ hf
  intro s hs
  rw [← hs.kind_peek 0]
  exact ⟨_, rfl, rfl⟩

end Looking

variable {α β γ : Type} {K : Arena → Prop} {P : α → Arena → Prop} {Q : γ → Arena → Prop}
  {next : γ → Rule β}

theorem Leads.atQuery {f : Bool → Rule β}
    (hf : Leads source K (f (kindAt 0 (ps ++ rest)).startsQuery) ps rest Q next) :
    Leads source K (Rule.atQuery >>= f) ps rest Q next := by
  refine Leads.look (R := fun b => b = (kindAt 0 (ps ++ rest)).startsQuery) ?_ fun b hb => hb ▸ hf
  intro s hs
  rw [← hs.kind_peek 0]
  exact ⟨_, atQuery_run s, rfl⟩

/-! ### Taking tokens -/

/-- Behind a piece stands no misspelled token, so the piece can be taken. -/
theorem Leads.advance {f : Unit → Rule β} (hf : Leads source K (f ()) ps rest Q next) :
    Leads source K (Rule.advance >>= f) (p :: ps) rest Q next := by
  intro s hs hsound hK
  have hrest : Laid source s.stream.advance.ahead (ps ++ rest) := Laid.advance hs
  have hspelled : ∀ problem, s.stream.advance.current.kind ≠ .problem problem := by
    intro problem h
    exact kindAt_ne_problem 0 (ps ++ rest) problem ((hrest.kind_peek 0).symm.trans h)
  rw [bind_of_ok (advance_run hspelled)]
  exact hf ⟨s.stream.advance, s.arena⟩ hrest hsound hK

/-- A terminal that stands at the front is taken. -/
theorem Leads.eat {t : Terminal} {f : Bool → Rule β} (hf : Leads source K (f true) ps rest Q next) :
    Leads source K (Rule.eat t >>= f) (terminal t :: ps) rest Q next := by
  rw [Rule.eat, bind_assoc]
  refine Leads.at? ?_
  rw [List.cons_append, kindAt_zero_cons, kind_terminal, beq_self_eq_true, if_pos rfl, bind_assoc]
  refine Leads.advance ?_
  rwa [pure_bind]

/-- A terminal that does not stand at the front is not taken. -/
theorem Leads.skip {t : Terminal} {f : Bool → Rule β} (h : kindAt 0 (ps ++ rest) ≠ t.kind)
    (hf : Leads source K (f false) ps rest Q next) :
    Leads source K (Rule.eat t >>= f) ps rest Q next := by
  rw [Rule.eat, bind_assoc]
  refine Leads.at? ?_
  rw [beq_false_of_ne h, if_neg Bool.false_ne_true]
  rwa [pure_bind]

theorem Leads.expect {t : Terminal} {f : Unit → Rule β}
    (hf : Leads source K (f ()) ps rest Q next) :
    Leads source K (Rule.expect t >>= f) (terminal t :: ps) rest Q next := by
  rw [Rule.expect, bind_assoc]
  refine Leads.eat ?_
  rwa [if_pos rfl, pure_bind]

/-- Nothing is added where the terminal does not follow. -/
theorem takes_behind_none {t : Terminal} {r : Rule (List NodeId)} (h : kindAt 0 rest ≠ t.kind) :
    Takes source K (behind t r) [] rest fun ids A => ids = [] ∧ K A := by
  rw [behind]
  refine Leads.skip h ?_
  exact Takes.done fun A hA => ⟨rfl, hA⟩

/-- What stands behind the terminal is added. -/
theorem Takes.behind {t : Terminal} {r : Rule (List NodeId)} {P : List NodeId → Arena → Prop}
    (h : Takes source K r ps rest P) :
    Takes source K (behind t r) (terminal t :: ps) rest P := by
  rw [Rule.behind]
  refine Leads.eat ?_
  exact h

/-! ### Adding nodes -/

variable {d : Datum} {ds : List Datum} {ids : List NodeId}

/-- A node that is no list is added with its datum. -/
theorem Leads.push [Stable K] {node : Node} {f : NodeId → Rule β}
    (hd : node.leaf?.map (Form.read source) = some d)
    (hf : ∀ id, Leads source (fun A => K A ∧ Shows source A id d) (f id) ps rest Q next) :
    Leads source K (Rule.push node >>= f) ps rest Q next := by
  intro s hs hsound hK
  obtain ⟨form, hleaf, rfl⟩ := Option.map_eq_some_iff.1 hd
  have hrun : Rule.push node s = .ok s.arena.size ⟨s.stream, s.arena.push node⟩ := rfl
  have hgrows : s.arena.Grows (s.arena.push node) := grows_push hleaf
  obtain ⟨b, s', hrun', hrest, hgrows', hb⟩ :=
    hf s.arena.size ⟨s.stream, s.arena.push node⟩ hs (hgrows.sound hsound)
      ⟨Stable.mono hsound hgrows hK, shows_push hleaf⟩
  exact ⟨b, s', (bind_of_ok hrun).trans hrun', hrest, hgrows.trans hgrows', hb⟩

theorem Leads.pushTag [Stable K] {t : Tag} {f : NodeId → Rule β}
    (hf : ∀ id, Leads source (fun A => K A ∧ Shows source A id (.tag t)) (f id) ps rest Q next) :
    Leads source K (Rule.pushTag t >>= f) ps rest Q next := Leads.push rfl hf

/-- A list is added with the data of its items. -/
theorem Leads.pushList [Stable K] {f : NodeId → Rule β} (hK : ∀ A, K A → ShowsAll source A ids ds)
    (hf : ∀ id, Leads source (fun A => K A ∧ Shows source A id (.list ds)) (f id) ps rest Q next) :
    Leads source K (Rule.pushList ids >>= f) ps rest Q next := by
  intro s hs hsound hs'
  have hrun : Rule.pushList ids s = .ok s.arena.size ⟨s.stream, s.arena.pushList ids⟩ := rfl
  have hgrows : s.arena.Grows (s.arena.pushList ids) := grows_pushList
  obtain ⟨b, s', hrun', hrest, hgrows', hb⟩ :=
    hf s.arena.size ⟨s.stream, s.arena.pushList ids⟩ hs (hgrows.sound hsound)
      ⟨Stable.mono hsound hgrows hs', shows_pushList hsound (hK _ hs')⟩
  exact ⟨b, s', (bind_of_ok hrun).trans hrun', hrest, hgrows.trans hgrows', hb⟩

/-- A list with a tag before its items is added with the data of the items. -/
theorem Leads.tagged [Stable K] {t : Tag} {f : NodeId → Rule β}
    (hK : ∀ A, K A → ShowsAll source A ids ds)
    (hf : ∀ id, Leads source (fun A => K A ∧ Shows source A id (.tagged t ds)) (f id) ps rest Q
      next) :
    Leads source K (Rule.tagged t ids >>= f) ps rest Q next := by
  rw [Rule.tagged, bind_assoc]
  refine Leads.pushTag fun head => ?_
  refine Leads.pushList (fun A hA => showsAll_cons.2 ⟨hA.2, hK A hA.1⟩) fun id => ?_
  exact (hf id).weaken fun A hA => ⟨hA.1.1, hA.2⟩

/-- A rule that ends by adding a list. -/
theorem Takes.pushList [Stable K] (hK : ∀ A, K A → ShowsAll source A ids ds) :
    Takes source K (Rule.pushList ids) [] rest fun id A => Shows source A id (.list ds) :=
  .of_bind_pure (Leads.pushList hK fun _ => Leads.here fun _ hA => hA.2)

/-- A rule that ends by adding a list with a tag before its items. -/
theorem Takes.tagged [Stable K] {t : Tag} (hK : ∀ A, K A → ShowsAll source A ids ds) :
    Takes source K (Rule.tagged t ids) [] rest fun id A => Shows source A id (.tagged t ds) :=
  .of_bind_pure (Leads.tagged hK fun _ => Leads.here fun _ hA => hA.2)

/-- A node is added for the piece at the front. -/
theorem Takes.pushAtom {node : Node} (hd : node.leaf?.map (Form.read source) = some d) :
    Takes source (fun _ => True) (Rule.pushAtom node) [p] rest fun id A => Shows source A id d := by
  refine Leads.push hd fun id => ?_
  refine Leads.advance ?_
  exact Leads.here fun _ hA => hA.2

/-- A name is taken and added. -/
theorem takes_identifier (n : Name) :
    Takes source (fun _ => True) identifier [n.piece] rest
      fun id A => Shows source A id (.name n.text) := by
  refine Leads.currentPiece fun t hkind htext hslice => ?_
  rw [if_pos (by rw [hkind, Name.kind_piece]; rfl)]
  refine Takes.pushAtom ?_
  show some (Datum.name (t.span.slice source)) = _
  rw [hslice, htext]
  rfl

/-! ### Repetition -/

section Repetition

variable {step : α → Rule (Option α)} {r : Rule α}

/-- A repetition goes on for one more step that takes pieces. -/
theorem Leads.extend {Q : α → Arena → Prop} (h : Leads source K r ps (qs ++ rest) P (iterate step))
    (hstep : ∀ a, Takes source (P a) (step a) qs rest fun o A => ∃ b, o = some b ∧ Q b A)
    (hne : qs ≠ []) : Leads source K r (ps ++ qs) rest Q (iterate step) := by
  intro s hs hsound hK
  rw [List.append_assoc] at hs
  obtain ⟨a, s₁, hrun, hmid, hgrows, ha⟩ := h s hs hsound hK
  obtain ⟨o, s₂, hrun', hrest, hgrows', b, rfl, hb⟩ := hstep a s₁ hmid (hgrows.sound hsound) ha
  have hshorter : s₂.stream.size < s₁.stream.size := by
    have hlong := hmid.length_eq
    have hshort := hrest.length_eq
    have hpos := List.length_pos_of_ne_nil hne
    rw [List.length_append] at hlong
    show s₂.stream.ahead.length < s₁.stream.ahead.length
    omega
  refine ⟨b, s₂, ?_, hrest, hgrows.trans hgrows', hb⟩
  rw [hrun, iterate, hrun']
  exact if_pos hshorter

/-- A repetition ends where its step finds nothing. -/
theorem Leads.close (h : Leads source K r ps rest P (iterate step))
    (hstep : ∀ a, Takes source (P a) (step a) [] rest fun o A => o = none ∧ P a A) :
    Takes source K r ps rest P := by
  intro s hs hsound hK
  obtain ⟨a, s₁, hrun, hmid, hgrows, ha⟩ := h s hs hsound hK
  obtain ⟨o, s₂, hrun', hrest, hgrows', rfl, hb⟩ := hstep a s₁ hmid (hgrows.sound hsound) ha
  refine ⟨a, s₂, ?_, hrest, hgrows.trans hgrows', hb⟩
  rw [hrun, iterate, hrun']
  rfl

/-- A repetition takes a list of items, one step for each. -/
theorem Leads.extendAll {ι : Type} {print : ι → List Piece} {P : List ι → α → Arena → Prop}
    (done items : List ι)
    (h : Leads source K r ps (items.flatMap print ++ rest) (P done) (iterate step))
    (hstep : ∀ before x behind, items = before ++ x :: behind → ∀ a,
      Takes source (P (done ++ before) a) (step a) (print x) (behind.flatMap print ++ rest)
        fun o A => ∃ b, o = some b ∧ P (done ++ before ++ [x]) b A)
    (hne : ∀ x ∈ items, print x ≠ []) :
    Leads source K r (ps ++ items.flatMap print) rest (P (done ++ items)) (iterate step) := by
  induction items generalizing ps done with
  | nil => simpa using h
  | cons x items ih =>
    have hfirst := hstep [] x items rfl
    rw [List.append_nil] at hfirst
    rw [List.flatMap_cons, List.append_assoc] at h
    have hx := Leads.extend h hfirst (hne x List.mem_cons_self)
    have hall := ih (done ++ [x]) hx ?_ fun y hy => hne y (List.mem_cons_of_mem _ hy)
    · have hdone : done ++ x :: items = done ++ [x] ++ items := by simp
      rw [List.flatMap_cons, ← List.append_assoc, hdone]
      exact hall
    · intro before y behind hitems a
      have hy := hstep (x :: before) y behind (by rw [hitems]; rfl) a
      simpa using hy

end Repetition

/-- One or more items with a terminal between neighbours are taken, each as it would be alone. -/
theorem takes_separatedBy {ι : Type} {item : Rule NodeId} {t : Terminal} {print : ι → List Piece}
    {datum : ι → Datum} (x : ι) (xs : List ι)
    (hitem : ∀ y ∈ x :: xs, ∀ more, more = rest ∨ (∃ others, more = terminal t :: others) →
      Takes source (fun _ => True) item (print y) more fun id A => Shows source A id (datum y))
    (hrest : kindAt 0 rest ≠ t.kind) :
    Takes source (fun _ => True) (separatedBy t item) (separated t ((x :: xs).map print)) rest
      fun ids A => ShowsAll source A ids ((x :: xs).map datum) := by
  -- What follows an item: the rest, or a terminal and a further item.
  have hmore : ∀ ys : List ι, ys.flatMap (fun y => terminal t :: print y) ++ rest = rest ∨
      ∃ others, ys.flatMap (fun y => terminal t :: print y) ++ rest = terminal t :: others := by
    intro ys
    cases ys with
    | nil => exact .inl rfl
    | cons y ys => exact .inr ⟨_, rfl⟩
  have hpieces : separated t ((x :: xs).map print) =
      print x ++ xs.flatMap fun y => terminal t :: print y := by
    simp [separated, List.flatMap_map]
  have hfirst : Leads source (fun _ => True) (separatedBy t item) (print x)
      (xs.flatMap (fun y => terminal t :: print y) ++ rest)
      (fun ids A => ShowsAll source A ids ([x].map datum))
      (iterate fun items => do
        if ← eat t then return some (items ++ [← item]) else return none) := by
    rw [← List.append_nil (print x)]
    refine Takes.seq (hitem x List.mem_cons_self _ (hmore xs)) fun id => ?_
    exact Leads.here fun A hA => hA.2.single
  have hall := Leads.extendAll (P := fun ys ids A => ShowsAll source A ids (ys.map datum)) [x] xs
    hfirst ?_ fun y _ => List.cons_ne_nil _ _
  · rw [hpieces]
    refine Leads.close hall fun ids => ?_
    refine Leads.skip hrest ?_
    rw [if_neg Bool.false_ne_true]
    exact Leads.here fun A hA => ⟨rfl, hA⟩
  · intro before y behind hxs ids
    refine Leads.eat ?_
    rw [if_pos rfl, ← List.append_nil (print y)]
    refine Takes.seq (hitem y (by rw [hxs]; simp) _ (hmore behind)) fun id => ?_
    refine Leads.here fun A hA => ⟨_, rfl, ?_⟩
    rw [List.map_append]
    exact hA.1.append hA.2.single

end Rule

end TaggedSql
