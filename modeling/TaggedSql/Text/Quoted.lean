/-!
# Quoted text

A quoted text runs to the next quote character that is not doubled; a doubled quote stands for
one. The three views of it are

* `split?`: cut the characters after an opening quote into the body as written and what follows
  the closing quote;
* `undouble`: the text that a body stands for;
* `double`: the body that stands for a text.
-/

namespace TaggedSql.Text

/-- The body as written and the text after the closing quote, or nothing if no quote closes. -/
def split? (quote : Char) : List Char → Option (List Char × List Char)
  | [] => none
  | [c] => if c = quote then some ([], []) else none
  | c :: d :: cs =>
    if c = quote then
      if d = quote then (split? quote cs).map fun r => (c :: d :: r.1, r.2)
      else some ([], d :: cs)
    else (split? quote (d :: cs)).map fun r => (c :: r.1, r.2)

/-- Replaces each doubled quote, from left to right, by a single one. -/
def undouble (quote : Char) : List Char → List Char
  | c :: d :: cs =>
    if c = quote ∧ d = quote then c :: undouble quote cs else c :: undouble quote (d :: cs)
  | cs => cs

/-- Writes each quote twice. -/
def double (quote : Char) : List Char → List Char
  | [] => []
  | c :: cs => if c = quote then c :: c :: double quote cs else c :: double quote cs

/-- A split loses nothing: body, quote and rest make up the text. -/
theorem append_of_split? {quote : Char} {cs body rest : List Char}
    (h : split? quote cs = some (body, rest)) : cs = body ++ quote :: rest := by
  fun_induction split? quote cs generalizing body with
  | case1 => cases h
  | case2 => cases h; rfl
  | case3 => cases h
  | case4 cs ih =>
      obtain ⟨⟨b, r⟩, hsplit, heq⟩ := Option.map_eq_some_iff.1 h
      cases heq
      simp [ih hsplit]
  | case5 d cs hd => cases h; rfl
  | case6 c d cs hc ih =>
      obtain ⟨⟨b, r⟩, hsplit, heq⟩ := Option.map_eq_some_iff.1 h
      cases heq
      simp [ih hsplit]

end TaggedSql.Text
