import DocPress.Grid.Html
import DocPress.Markdown.Emphasis
import DocPress.Markdown.Options

-- Tables with a row a line, cells between bars, and a line of dashes below the first row.

namespace DocPress.Markdown.PipeTable

open Text

def bars (l : Text) : Nat :=
  l.count '|'

def isUnderline (l : Text) : Bool :=
  l.all fun c => c = '-' || c = '|' || c = ' '

-- At least two lines, with the same number of bars on all of them and an underline on the second.
def accepts (x : Text) : Bool :=
  x.contains '\n' && x.contains '|' &&
    match lines x with
    | l :: m :: ls => (l :: m :: ls).all (bars · = bars l) && isUnderline m
    | _            => false

-- Bars at the ends of a row belong to its frame.
def cells (l : Text) : List Text :=
  (trimBy (· = '|') l).splitOn '|'

-- The columns of a table without its underline, cut to the row with the fewest cells.
def columns (x : Text) : List (List Text) :=
  let rows := ((lines x).eraseIdx 1).map cells
  let count := (rows.map List.length).min?.getD 0
  (List.range count).map fun i => rows.map (·.getD i [])

def toHtml (options : Options) (x : Text) : Text :=
  (Grid.ofColumns (columns (Emphasis.toHtml x))).toHtml options.htmlIndent

end DocPress.Markdown.PipeTable
