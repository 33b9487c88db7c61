import DocPress.Text.Blank
import DocPress.Text.Lines
import DocPress.Tree.Basic

-- Trees drawn with box characters. The view of a subtree is drawn by itself; it then hangs on its
-- parent behind a branch sign, with the line of the trunk running down its other lines.

namespace DocPress

open Text

namespace Drawing

def rootSign : Text := "• "
def branch   : Text := "├─ "
def corner   : Text := "└─ "
def trunk    : Text := "│  "

-- What an empty label is drawn as.
def placeholder : Text := "+"

-- Puts one text in front of the first line of a view and another one in front of the others.
def hang (first rest view : Text) : Text :=
  match lines view with
  | []      => []
  | l :: ls => joinLines ((first ++ l) :: ls.map (rest ++ ·))

-- Hangs views below each other; the last of them hangs on a corner.
def branches : List Text → List Text
  | []      => []
  | [v]     => [hang corner (spaces corner.length) v]
  | v :: vs => hang branch trunk v :: branches vs

end Drawing

namespace Tree

open Drawing

def label (t : Tree) : Text :=
  if t.data = [] then placeholder else oneLine t.data

mutual

def view : Tree → Text
  | leaf d           => label (leaf d)
  | node d []        => label (node d [])
  | node d (t :: ts) => label (node d (t :: ts)) ++ ['\n'] ++ joinLines (branches (views (t :: ts)))

def views : List Tree → List Text
  | []      => []
  | t :: ts => view t :: views ts

end

def draw (t : Tree) : Text :=
  hang rootSign (spaces rootSign.length) (view t)

end Tree
end DocPress
