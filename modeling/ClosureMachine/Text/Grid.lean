/-!
# Tables

A table has titled columns, and rows with a cell for each column. A cell may have several lines. How
a table is put into plain text is left to a typesetter.
-/

namespace ClosureMachine

/-- The side of its column that a cell keeps to. -/
inductive Align where
  | left
  | right
  deriving DecidableEq, Repr

structure Column where
  title : List Char
  align : Align := .left
  deriving DecidableEq, Repr

/-- A table: its columns, and the cells of each row. -/
structure Grid where
  columns : List Column
  rows : List (List (List Char))
  deriving DecidableEq, Repr

/-- Puts a table into plain text. One that cannot be drawn is a fault in the typesetter, which brings
the program down with the words that are answered in place of the text. -/
abbrev Typesetter :=
  Grid → Except String (List Char)

end ClosureMachine
