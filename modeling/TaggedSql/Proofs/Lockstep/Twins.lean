import TaggedSql.Proofs.Lockstep.Whole
import TaggedSql.Proofs.Token.Source

/-!
# Runs on tokens that differ in their places

Two lists of tokens are twins if they agree in everything but the places of their tokens. No rule looks
at a place, so runs on twins are in lockstep: their trees differ only in spans, and each span runs
between tokens with the same numbers.

* `Token.Twins`, `Span.Twins`, `Arena.Twins`, `Failure.Twins`: what corresponds in the two runs;
* `Lockstep.twins`: the lockstep of the two runs;
* `outcome_twins`: what becomes of two sources whose tokens are twins.
-/

namespace TaggedSql

section Twins

variable (T U : List Token)

/-- Two tokens of one kind and one text that have the same number in the two lists. -/
structure Token.Twins (t u : Token) : Prop where
  kind : t.kind = u.kind
  text : t.text = u.text
  number : ∃ i : Nat, T[i]? = some t ∧ U[i]? = some u

/-- Two spans that run from the start of a token to the end of a token, where the tokens have the same
numbers in the two lists. -/
def Span.Twins (a b : Span) : Prop :=
  ∃ t u t' u', Token.Twins T U t u ∧ Token.Twins T U t' u' ∧ a = ⟨t.span.start, t'.span.stop⟩ ∧
    b = ⟨u.span.start, u'.span.stop⟩

/-- Two nodes that differ only in their spans. -/
inductive Node.Twins : Node → Node → Prop
  | list (r : Run) : Node.Twins (.list r) (.list r)
  | atom {a b : Node} (h : Node.Matches (Span.Twins T U) a b) : Node.Twins a b

/-- Two arenas with the same lists, whose nodes differ only in their spans. -/
structure Arena.Twins (A B : Arena) : Prop where
  children : A.children = B.children
  nodes : List.Forall₂ (Node.Twins T U) A.nodes.toList B.nodes.toList

/-- Two failures of one kind at tokens with the same number. -/
inductive Failure.Twins : Failure → Failure → Prop
  | lexical (p : Problem) {t u : Token} (h : Token.Twins T U t u) :
      Failure.Twins (.lexical p t) (.lexical p u)
  | unexpected (e : Expectation) {t u : Token} (h : Token.Twins T U t u) :
      Failure.Twins (.unexpected e t) (.unexpected e u)
  | tooDeep (limit : Nat) {t u : Token} (h : Token.Twins T U t u) :
      Failure.Twins (.tooDeep limit t) (.tooDeep limit u)

/-- Two streams whose tokens are twins, up to and including the end. -/
structure Stream.Twins (s t : Stream) : Prop where
  ahead : List.Forall₂ (Token.Twins T U) s.ahead t.ahead
  stop : Token.Twins T U (Token.endAt s.stop) (Token.endAt t.stop)

end Twins

variable {T U : List Token}

/-- Tokens with the same number are twins if the lists agree in kinds and texts. -/
theorem Token.Twins.of_bare (h : T.map Token.bare = U.map Token.bare) {t u : Token} {i : Nat}
    (ht : T[i]? = some t) (hu : U[i]? = some u) : Token.Twins T U t u := by
  have hbare : t.bare = u.bare := by
    have hget := congrArg (·[i]?) h
    simpa only [List.getElem?_map, ht, hu, Option.map_some, Option.some.injEq] using hget
  exact ⟨congrArg Prod.fst hbare, congrArg Prod.snd hbare, i, ht, hu⟩

namespace Stream.Twins

variable {s t : Stream}

/-- Streams are twins if all their tokens agree in kinds and texts, the end included. -/
theorem of_bare (hs : T = s.ahead ++ [Token.endAt s.stop]) (ht : U = t.ahead ++ [Token.endAt t.stop])
    (h : T.map Token.bare = U.map Token.bare) : Stream.Twins T U s t := by
  have hlength : s.ahead.length = t.ahead.length := by
    have hlengths := congrArg List.length h
    rw [List.length_map, List.length_map, hs, ht] at hlengths
    simpa using hlengths
  constructor
  · refine List.forall₂_iff_zip.2 ⟨hlength, fun {a b} hab => ?_⟩
    obtain ⟨i, hi⟩ := List.mem_iff_getElem?.1 hab
    obtain ⟨ha, hb⟩ := List.getElem?_zip_eq_some.1 hi
    refine Token.Twins.of_bare h (i := i) ?_ ?_
    · rw [hs, List.getElem?_append_left (List.getElem?_eq_some_iff.1 ha).1, ha]
    · rw [ht, List.getElem?_append_left (List.getElem?_eq_some_iff.1 hb).1, hb]
  · refine Token.Twins.of_bare h (i := s.ahead.length) ?_ ?_
    · rw [hs, List.getElem?_concat_length]
    · rw [ht, hlength, List.getElem?_concat_length]

theorem peek (h : Stream.Twins T U s t) (n : Nat) : Token.Twins T U (s.peek n) (t.peek n) :=
  forall₂_peek h.ahead h.stop n

theorem current (h : Stream.Twins T U s t) : Token.Twins T U s.current t.current := h.peek 0

theorem advance (h : Stream.Twins T U s t) : Stream.Twins T U s.advance t.advance :=
  ⟨forall₂_advance h.ahead, h.stop⟩

/-- Both runs go on, or both meet the same problem. -/
theorem meet {excused : Failure → Prop} (h : Stream.Twins T U s t) :
    Stream.Meet (Stream.Twins T U) excused (Failure.Twins T U) s t := by
  have hkind := h.current.kind
  by_cases hp : ∃ p, s.current.kind = .problem p
  · obtain ⟨p, hp⟩ := hp
    exact .failure hp (hkind ▸ hp) (.lexical p h.current)
  · exact .goOn h (fun p h => hp ⟨p, h⟩) fun p h => hp ⟨p, hkind.trans h⟩

end Stream.Twins

theorem Arena.Twins.size {A B : Arena} (h : Arena.Twins T U A B) : A.size = B.size := by
  have hlength := h.nodes.length_eq
  rwa [Array.length_toList, Array.length_toList] at hlength

namespace Lockstep

/-- Two runs on tokens that differ in their places. -/
def twins (policy : OverflowPolicy) (T U : List Token) : Lockstep where
  left := policy
  right := policy
  stream := Stream.Twins T U
  arena := Arena.Twins T U
  span := Span.Twins T U
  node := Eq
  excused _ := False
  failure := Failure.Twins T U
  front h := .inl h.current.kind
  text h _ := h.current.text
  frontSpan h _ := ⟨_, _, _, _, h.current, h.current, rfl, rfl⟩
  second h _ := .inl (h.peek 1).kind
  third h _ _ := .inl (h.peek 2).kind
  advance h _ := h.advance.meet
  unexpected e h := .inr (.unexpected e h.current)
  promote h := h
  range hpolicy h _ := by
    refine .inr ⟨hpolicy, ?_⟩
    rw [← h.current.text]
    exact .lexical _ h.current
  join := by
    rintro _ _ _ _ ⟨t, u, _, _, hstart, _, rfl, rfl⟩ ⟨_, _, t', u', _, hstop, rfl, rfl⟩
    exact ⟨t, u, t', u', hstart, hstop, rfl, rfl⟩
  push := by
    intro A B n m h hmatches
    refine ⟨h.size, h.children, ?_⟩
    rw [Arena.push, Arena.push, Array.toList_push, Array.toList_push]
    exact List.rel_append h.nodes (.cons (.atom hmatches) .nil)
  pushList := by
    intro A B ids ids' h hids
    rw [List.forall₂_eq_eq_eq] at hids
    subst hids
    refine ⟨h.size, ?_, ?_⟩
    · rw [Arena.pushList, Arena.pushList, h.children]
    · rw [Arena.pushList, Arena.pushList, Array.toList_push, Array.toList_push, h.children]
      exact List.rel_append h.nodes (.cons (.list _) .nil)

theorem whole_twins {policy : OverflowPolicy} : (twins policy T U).Whole where
  kind h := h.current.kind
  advance h _ := h.advance.meet
  empty := ⟨rfl, .nil⟩

open Statement

/-- The rules follow each other on every level, also where no room is left. -/
theorem contexts_twins (settings : Settings) (n : Nat) :
    (twins settings.overflow T U).Contexts (context settings) (context settings) n := by
  refine contexts_context settings rfl rfl (fun s t hst => ?_) n
  exact .inr (Failure.Twins.tooDeep _ hst.current)

/-- What becomes of two sources whose tokens are twins. -/
theorem outcome_twins {settings : Settings} {source source' : String}
    (h : Stream.Twins T U (Stream.ofSource settings.overflow source)
      (Stream.ofSource settings.overflow source')) :
    (twins settings.overflow T U).Outcome ((twins settings.overflow T U).Trees source source')
      (parse settings source) (parse settings source') :=
  outcome_parse whole_twins (contexts_twins settings _) h.meet (Nat.lt_succ_self _)

end Lockstep

end TaggedSql
