import DocPress.Text.Blank
import DocPress.Text.Case
import DocPress.Text.Search

-- Anchors are the names under which headings are linked.

namespace DocPress.Markdown.Anchor

open Text

-- The words of a heading in lower case, without the parentheses of calls, joined by hyphens.
def base (heading : Text) : Text :=
  join "-" (words (lower (replace "()" "" heading)))

def numbered (base : Text) : Nat → Text
  | 0 => base
  | n => base ++ "-" ++ decimal n

-- The anchors of headings that follow others whose bases are given.
def following (seen : List Text) : List Text → List Text
  | []      => []
  | h :: hs => numbered (base h) (seen.count (base h)) :: following (base h :: seen) hs

-- A base that occurs again is numbered, from the second time on.
def ofHeadings (headings : List Text) : List Text :=
  following [] headings

end DocPress.Markdown.Anchor
