import DocPress.Grid.Basic
import DocPress.Text.Margin

-- Grids as tables with a row of header cells.

namespace DocPress.Grid

open Text

def cellHtml (header : Bool) (x : Text) : Text :=
  if header then "<th>" ++ x ++ "</th>" else "<td>" ++ x ++ "</td>"

def rowHtml (step : Text) (header : Bool) (cells : List Text) : Text :=
  "<tr>\n" ++ indent step (joinLines (cells.map (cellHtml header))) ++ "\n</tr>"

def rowsHtml (step : Text) : List (List Text) → List Text
  | []      => []
  | r :: rs => rowHtml step true r :: rs.map (rowHtml step false)

def toHtml (step : Nat) (g : Grid) : Text :=
  if g.columns.isEmpty then []
  else
    "<table>\n" ++ indent (spaces step) (joinLines (rowsHtml (spaces step) g.rows)) ++ "\n</table>"

end DocPress.Grid
