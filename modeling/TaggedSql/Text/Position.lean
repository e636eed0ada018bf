import TaggedSql.Text.Utf8

/-!
# Lines and columns

A byte offset is shown to a reader as a line and a column, both counted from one; a column counts
characters. An offset inside a character stands for the start of that character, and one beyond the
end for the end. `lineText` is the text of a line without its terminator, `\n` or `\r\n`.
-/

namespace TaggedSql.Text

/-- A place in a text, counted from line one and column one. -/
structure Position where
  line : Nat
  column : Nat
  deriving DecidableEq, Repr

/-- The characters after the last newline. -/
def lastLine (cs : List Char) : List Char := (cs.reverse.takeWhile (· ≠ '\n')).reverse

/-- The position that follows a beginning of a text. -/
def Position.after (before : List Char) : Position where
  line := before.count '\n' + 1
  column := (lastLine before).length + 1

/-- The position of a byte offset. -/
def Position.ofOffset (source : List Char) (offset : Nat) : Position :=
  Position.after (takeFitting source offset)

/-- The pieces of a text between its newlines; there is one more piece than there are newlines. -/
def pieces : List Char → List (List Char)
  | [] => [[]]
  | c :: cs =>
    if c = '\n' then [] :: pieces cs
    else
      match pieces cs with
      | [] => [[c]]
      | piece :: more => (c :: piece) :: more

/-- Removes one carriage return from the end. -/
def dropReturn (cs : List Char) : List Char :=
  match cs.reverse with
  | '\r' :: front => front.reverse
  | _ => cs

/-- The text of the line with a number counted from one, without its terminator. A carriage return
belongs to the terminator only if a newline follows it. -/
def lineText (source : List Char) (line : Nat) : List Char :=
  match (pieces source).drop (line - 1) with
  | [] => []
  | [last] => last
  | piece :: _ :: _ => dropReturn piece

end TaggedSql.Text
