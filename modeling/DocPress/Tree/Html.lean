import DocPress.Text.Margin
import DocPress.Text.Search
import DocPress.Tree.Basic

-- Trees as nested lists. Every node becomes an item; the item of the root is turned into a
-- paragraph, whose body is moved back to the margin.

namespace DocPress

open Text

namespace Tree

mutual

def item (step : Text) : Tree → Text
  | leaf d           => "<li>" ++ oneLine d ++ "</li>"
  | node d []        => "<li>" ++ oneLine d ++ "</li>"
  | node d (t :: ts) =>
    "<li>" ++ oneLine d ++ "\n" ++
      indent step ("<ul>\n" ++ indent step (joinLines (items step (t :: ts))) ++ "\n</ul>") ++
      "\n</li>"

def items (step : Text) : List Tree → List Text
  | []      => []
  | t :: ts => item step t :: items step ts

end

-- Moves the lines between the first and the last one back to the margin.
def unindentBody (view : Text) : Text :=
  let ls := lines view
  if ls.length < 2 then view
  else joinLines [ls.headD [], dedent (joinLines (ls.drop 1).dropLast), ls.getLastD []]

-- Turns the tags that open and close an item, on the first and on the last line, into those of a
-- paragraph.
def asParagraph (view : Text) : Text :=
  let ls := (lines view).modifyHead (replace "<li>" "<p>")
  joinLines (ls.dropLast ++ ls.getLast?.toList.map (replace "</li>" "</p>"))

def toHtml (step : Nat) (t : Tree) : Text :=
  asParagraph (unindentBody (item (spaces step) t))

end Tree
end DocPress
