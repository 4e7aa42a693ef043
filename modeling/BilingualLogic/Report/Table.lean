import BilingualLogic.Unicode.Width

/-!
Tables drawn with lines. A column is as wide as its widest cell, and a cell has a blank on either side.
-/

namespace BilingualLogic.Report

inductive Side where
  | left
  | right
deriving DecidableEq

structure Cell where
  text : String
  side : Side := .left

def Cell.width (c : Cell) : Nat := Unicode.textWidth c.text

def blanks (n : Nat) : String := String.ofList (List.replicate n ' ')

/-- A cell with blanks up to the width of its column. -/
def Cell.draw (width : Nat) (c : Cell) : String :=
  let fill := blanks (width - c.width)
  match c.side with
  | .left => " " ++ c.text ++ fill ++ " "
  | .right => " " ++ fill ++ c.text ++ " "

/-- The widths of the columns. -/
def widths : List (List Cell) → List Nat
  | [] => []
  | [row] => row.map Cell.width
  | row :: rows => List.zipWith max (row.map Cell.width) (widths rows)

/-- A line between rows, of a left end, a stroke, a crossing and a right end. -/
def rule (left stroke crossing right : String) (columns : List Nat) : String :=
  left ++ crossing.intercalate (columns.map fun w => String.join (List.replicate (w + 2) stroke)) ++ right

def drawRow (columns : List Nat) (row : List Cell) : String :=
  "│" ++ "┆".intercalate (List.zipWith Cell.draw columns row) ++ "│"

/-- The table with the given header and rows, of which there is at least one. -/
def table (header : List Cell) (rows : List (List Cell)) : String :=
  let columns := widths (header :: rows)
  "\n".intercalate (
    [rule "┌" "─" "┬" "┐" columns, drawRow columns header, rule "╞" "═" "╪" "╡" columns]
      ++ (rows.map (drawRow columns)).intersperse (rule "├" "╌" "┼" "┤" columns)
      ++ [rule "└" "─" "┴" "┘" columns])

end BilingualLogic.Report
