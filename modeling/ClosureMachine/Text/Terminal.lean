import ClosureMachine.Text.Grid
import ClosureMachine.Text.Lines
import ClosureMachine.Text.Width

/-!
# Tables on a terminal

The typesetter of the command line: a rule below the titles, and one at the bottom. A row is as tall
as its tallest cell. A column is as wide as its widest cell, its title included. How many columns of
the screen a line takes is left to a measure; a table with a line that has no width cannot be drawn.
-/

namespace ClosureMachine.Grid

/-- The greatest of the widths of some things, if each of them has one. -/
def greatest? {α : Type} (width? : α → Option Nat) (things : List α) : Option Nat :=
  (·.foldl max 0) <$> things.mapM width?

section

variable (measure : List Char → Option Nat)

/-- How many columns of the screen a cell takes. -/
def cellWidth? (cell : List Char) : Option Nat :=
  greatest? measure (Text.lines cell)

def widths? (grid : Grid) : Option (List Nat) :=
  grid.columns.zipIdx.mapM fun (column, i) =>
    greatest? (cellWidth? measure) (column.title :: grid.rows.map (·.getD i []))

/-- A line of a cell in a column with this side and width, filled up to the width. -/
def pad? (column : Align × Nat) (line : List Char) : Option (List Char) := do
  let fill := List.replicate (column.2 - (← measure line)) ' '
  match column.1 with
  | .left => return line ++ fill
  | .right => return fill ++ line

/-- A line of a row, given the lines of its cells: the cells side by side, with a bar between them and a
space around each. -/
def rowLine? (columns : List (Align × Nat)) (cells : List (List (List Char))) (k : Nat) :
    Option (List Char) := do
  let parts ← (columns.zip cells).mapM fun cell => pad? measure cell.1 (cell.2.getD k [])
  return ' ' :: ['│'].intercalate (parts.map fun part => ' ' :: part ++ [' ']) ++ [' ', '\n']

def rowText? (columns : List (Align × Nat)) (cells : List (List Char)) : Option (List Char) := do
  let cells := cells.map Text.lines
  let height := (cells.map List.length).foldl max 1
  let lines ← (List.range height).mapM (rowLine? measure columns cells)
  return lines.flatten

/-- A rule across all columns, with `junction` between them. -/
def rule (widths : List Nat) (junction : Char) : List Char :=
  let parts := widths.map fun width => List.replicate (width + 2) '─'
  ' ' :: [junction].intercalate parts ++ [' ', '\n']

def render? (grid : Grid) : Option (List Char) := do
  let widths ← grid.widths? measure
  let columns := (grid.columns.map Column.align).zip widths
  let titles ← rowText? measure columns (grid.columns.map Column.title)
  let rows ← grid.rows.mapM (rowText? measure columns)
  return titles ++ rule widths '┼' ++ rows.flatten ++ rule widths '┴'

/-- Draws a table for a terminal with this measure. -/
def drawBy : Typesetter := fun grid =>
  match grid.render? measure with
  | some text => .ok text
  | none => .error "a line hides more columns than it takes\n"

end

/-- Draws a table for a terminal. -/
def draw : Typesetter :=
  drawBy Width.ofText?

end ClosureMachine.Grid
