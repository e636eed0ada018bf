import TaggedSql.Proofs.Ledger.Statements
import TaggedSql.Proofs.Session.Encoding
import TaggedSql.Proofs.Tree.Ownership

/-!
# Trees without waste

Every rule puts each node that it adds, and each node that it is given, into exactly one list or hands
it over. A statement begins with an empty arena and hands over its root alone, so its tree is proper:
each node has one place below the root, and nothing else is in the arena.

* `Ledger.ofNodes`: the account of the nodes at hand;
* `proper_of_tree`: the tree of a statement is proper if no nodes were left over before it;
* `parse_proper`: the trees of a statement and of a script are proper.
-/

namespace TaggedSql

open Rule Arena Statement

/-- The account of nodes: each is at hand or belongs to exactly one list. -/
def Ledger.ofNodes (policy : OverflowPolicy) : Ledger where
  policy
  holds s ids := s.arena.Owned ids
  failed _ := True
  fail _ := trivial
  perm hperm h := h.reorder hperm
  advance h := h
  push := by
    intro s ids node hplain h
    refine h.push ?_
    cases node with
    | list r => cases hplain
    | _ => rfl
  float _ h := h.push rfl
  pushList h := h.pushList

variable {settings : Settings} {source : String} {s s' : ParseState} {t : Tree}

/-- The tree of a statement is proper if no nodes were left over before it. -/
theorem proper_of_tree (h : tree settings source s = .ok t s') (hempty : s.arena = {}) :
    t.Proper := by
  obtain ⟨⟨_, tag, items, hform, _⟩, _⟩ := exists_of_tree h (hempty ▸ sound_empty)
  obtain ⟨root, s₁, hstatement, hrest⟩ := bind_eq_ok h
  cases hrest
  have hcontext := Ledger.context_enter (L := .ofNodes settings.overflow) rfl settings.maxDepth
  have hkeeps := Ledger.keeps_statement hcontext s []
    (show s.arena.Owned ([] ++ []) from hempty ▸ owned_empty)
  rw [show statement ⟨settings.overflow, enter settings settings.maxDepth⟩ s = _ from hstatement]
    at hkeeps
  have howned : s₁.arena.Owned [root] := hkeeps
  refine Tree.proper_of_owned howned ?_
  -- Only a list has a form with items.
  show Tree.isList ⟨source, s₁.arena, root⟩ root = true
  have hform' : s₁.arena.form root = .list (.tag tag :: items) := hform
  obtain ⟨node, hnode⟩ : ∃ node, s₁.arena.nodes[root]? = some node :=
    ⟨_, Array.getElem?_eq_getElem (howned.lt List.mem_cons_self)⟩
  rw [Tree.isList, Tree.node?, hnode]
  cases node with
  | list r => rfl
  | _ =>
    rw [form_of_leaf hnode rfl] at hform'
    cases hform'

/-- The trees that are read, from a statement or from a script, are proper. -/
theorem parse_proper (settings : Settings) (source : String) :
    (∀ t, parse settings source = .ok t → t.Proper) ∧
      ∀ trees, parseScript settings source = .ok trees → ∀ t ∈ trees, t.Proper := by
  constructor
  · intro t h
    obtain ⟨s', hsingle⟩ := Session.run_eq_ok h
    obtain ⟨_, htree, _⟩ := exists_of_single hsingle
    exact proper_of_tree htree rfl
  · intro trees h t ht
    obtain ⟨s', hscript⟩ := Session.run_eq_ok h
    obtain ⟨_, _, hempty, htree⟩ := exists_tree_of_script hscript rfl ht
    exact proper_of_tree htree hempty

/-- A call whose name is added behind its arguments, a script of two statements, and their trees. -/
theorem parse_proper_call :
    (∃ t, parse {} "SELECT min(a, 2) LIMIT 1, 3" = .ok t ∧ t.Proper) ∧
      ∃ t u, parseScript {} "DROP VIEW a;; VALUES (1) UNION VALUES (2)" = .ok [t, u] ∧
        t.Proper ∧ u.Proper := by
  constructor
  · have hread : (parse {} "SELECT min(a, 2) LIMIT 1, 3").toOption.isSome = true := by
      decide +kernel
    obtain ⟨t, ht⟩ := Option.isSome_iff_exists.1 hread
    have hparse := eq_ok_of_toOption ht
    exact ⟨t, hparse, (parse_proper {} _).1 t hparse⟩
  · have hread : (parseScript {} "DROP VIEW a;; VALUES (1) UNION VALUES (2)").toOption.map
        List.length = some 2 := by decide +kernel
    obtain ⟨trees, htrees, hlength⟩ := Option.map_eq_some_iff.1 hread
    obtain ⟨t, u, rfl⟩ := List.length_eq_two.1 hlength
    have hscript := eq_ok_of_toOption htrees
    have hall := (parse_proper {} _).2 _ hscript
    exact ⟨t, u, hscript, hall t (by simp), hall u (by simp)⟩

end TaggedSql
