/-!
# Symbols

The operators and delimiters. A symbol has one spelling in messages; `==` and `!=` are second
spellings in a source. Where one spelling begins another, the longer one is meant.
-/

namespace TaggedSql

/-- An operator or a delimiter. -/
inductive Symbol where
  | plus | minus | star | slash | percent | equal | unequal | less | lessOrEqual | greater
  | greaterOrEqual | concat | bitAnd | bitOr | bitNot | shiftLeft | shiftRight | leftParen
  | rightParen | comma | semicolon | dot
  deriving DecidableEq, Repr

namespace Symbol

/-- The spelling of a symbol in messages. -/
def spelling : Symbol → String
  | .plus => "+"
  | .minus => "-"
  | .star => "*"
  | .slash => "/"
  | .percent => "%"
  | .equal => "="
  | .unequal => "<>"
  | .less => "<"
  | .lessOrEqual => "<="
  | .greater => ">"
  | .greaterOrEqual => ">="
  | .concat => "||"
  | .bitAnd => "&"
  | .bitOr => "|"
  | .bitNot => "~"
  | .shiftLeft => "<<"
  | .shiftRight => ">>"
  | .leftParen => "("
  | .rightParen => ")"
  | .comma => ","
  | .semicolon => ";"
  | .dot => "."

/-- Every spelling of a symbol in a source, the longer ones first. -/
def spellings : List (List Char × Symbol) :=
  [(['=', '='], .equal), (['<', '='], .lessOrEqual), (['<', '>'], .unequal),
   (['<', '<'], .shiftLeft), (['>', '='], .greaterOrEqual), (['>', '>'], .shiftRight),
   (['!', '='], .unequal), (['|', '|'], .concat),
   (['('], .leftParen), ([')'], .rightParen), ([','], .comma), ([';'], .semicolon), (['.'], .dot),
   (['+'], .plus), (['-'], .minus), (['*'], .star), (['/'], .slash), (['%'], .percent),
   (['~'], .bitNot), (['&'], .bitAnd), (['='], .equal), (['<'], .less), (['>'], .greater),
   (['|'], .bitOr)]

/-- The longest spelling of a symbol with which a text begins. -/
def spelled? (cs : List Char) : Option (List Char × Symbol) :=
  spellings.find? fun s => s.1.isPrefixOf cs

/-- No spelling is empty. -/
theorem ne_nil_of_mem_spellings : ∀ s ∈ spellings, s.1 ≠ [] := by decide

/-- A spelling that a text begins with is not empty, and the text continues it. -/
theorem append_drop_of_spelled? {cs spelling : List Char} {s : Symbol}
    (h : spelled? cs = some (spelling, s)) :
    spelling ≠ [] ∧ spelling ++ cs.drop spelling.length = cs := by
  have hpre := List.find?_some h
  refine ⟨ne_nil_of_mem_spellings _ (List.mem_of_find?_eq_some h), ?_⟩
  obtain ⟨rest, rfl⟩ := List.isPrefixOf_iff_prefix.1 hpre
  simp

end Symbol

end TaggedSql
