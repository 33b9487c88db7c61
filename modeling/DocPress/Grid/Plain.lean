import DocPress.Grid.Basic
import DocPress.Text.Lines

-- Grids as plain text, with aligned columns and a line of dashes below the headers.

namespace DocPress.Grid

open Text

def columnWidth (column : List Text) : Nat :=
  (column.map width).foldl max 0

def pad (n : Nat) (x : Text) : Text :=
  x ++ spaces (n - width x)

-- Pads the cells of a column to its width and underlines the header.
def align (column : List Text) : List Text :=
  let n := columnWidth column
  (column.map (pad n)).insertIdx 1 (List.replicate n '-')

-- A row with a single cell is put between bars, or else it would not read as a row.
def joinRow : List Text → Text
  | [x]   => "| " ++ x ++ " |"
  | cells => join " | " cells

theorem length_align {column : List Text} (h : column ≠ []) :
    (align column).length = column.length + 1 := by
  have := List.length_pos_iff.mpr h
  simp only [align]
  rw [List.length_insertIdx_of_le_length (by rw [List.length_map]; exact this)]
  simp

def toPlain (g : Grid) : Text :=
  if g.columns.isEmpty then []
  else
    let columns := g.columns.map align
    joinLines ((List.range (g.height + 1)).map fun r => joinRow (columns.map (cell · r)))

end DocPress.Grid
