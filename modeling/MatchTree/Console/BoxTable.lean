import MatchTree.Text.Words
import MatchTree.Text.Columns

/-!
# Tables in boxes

* `boxTable` — rows of cells under headings, in a box with rounded corners. A column is as wide as
  its widest cell or heading, in columns of the terminal; a cell of several lines makes its row as
  high. A table without rows ends with the rule under its headings.
-/

namespace MatchTree

namespace BoxTable

/-- The lines of a cell. -/
def cellLines (cell : String) : List String := (Text.lines cell.toList).map String.ofList

/-- The width of a text of one line. -/
def lineWidth (line : String) : Nat := Text.columns line.toList

/-- The width of a cell: that of its widest line. -/
def cellWidth (cell : String) : Nat := ((cellLines cell).map lineWidth).foldl max 0

/-- The widths of the columns. -/
def widths (headings : List String) (rows : List (List String)) : List Nat :=
  headings.zipIdx.map fun (heading, i) =>
    (rows.map fun row => cellWidth (row[i]?.getD "")).foldl max (cellWidth heading)

/-- A text with blanks after it up to a width. -/
def padded (width : Nat) (s : String) : String :=
  s ++ String.ofList (List.replicate (width - lineWidth s) ' ')

/-- A rule with its ends and what stands between columns. -/
def rule (left middle right : String) (widths : List Nat) : String :=
  left ++ String.intercalate middle
    (widths.map fun w => String.ofList (List.replicate (w + 2) '─')) ++ right

/-- The lines of a row. -/
def rowLines (widths : List Nat) (row : List String) : List String :=
  let cells := row.map cellLines
  let height := (cells.map List.length).foldl max 1
  (List.range height).map fun i =>
    "│ " ++ String.intercalate " │ "
      ((widths.zip cells).map fun (w, cell) => padded w (cell[i]?.getD "")) ++ " │"

end BoxTable

open BoxTable in
/-- Rows of cells under headings, in a box. -/
def boxTable (headings : List String) (rows : List (List String)) : String :=
  let widths := widths headings rows
  String.intercalate "\n" <|
    [rule "╭" "┬" "╮" widths] ++ rowLines widths headings ++ [rule "├" "┼" "┤" widths] ++
      (if rows.isEmpty then []
        else rows.flatMap (rowLines widths) ++ [rule "╰" "┴" "╯" widths])

end MatchTree
