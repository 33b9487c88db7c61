import DocPress.Markdown.Anchor
import DocPress.Markdown.Heading
import DocPress.Tree.Html
import DocPress.Tree.Outline

-- Tables of contents: headings as an outline of links, nested by their levels.

namespace DocPress.Markdown.Contents

open Text

structure Entry where
  level  : Nat
  text   : Text
  anchor : Text
  deriving DecidableEq, Repr

def entries (headings : List Text) : List Entry :=
  List.zipWith (fun h a => ⟨max (Heading.level h) 1, Heading.content h, a⟩) headings
    (Anchor.ofHeadings (headings.map Heading.content))

def Entry.href (target : Text) (e : Entry) : Text :=
  target ++ "#" ++ e.anchor

def Entry.link (target : Text) (e : Entry) : Text :=
  "<a href=\"" ++ e.href target ++ "\">" ++ e.text ++ "</a>"

-- An item that stands two spaces to the right for every level below the first.
def Entry.item (target : Text) (e : Entry) : Text :=
  spaces (2 * (e.level - 1)) ++ "- " ++ e.link target

def items (target : Text) (headings : List Text) : List Text :=
  (entries headings).map (·.item target)

-- The links of headings as an outline, at the margin.
def outline (target : Text) (headings : List Text) : Text :=
  dedent (joinLines (items target headings))

def toHtml (step : Nat) (headings : List Text) : Text :=
  if headings.isEmpty then [] else (Tree.ofOutline (outline [] headings)).toHtml step

end DocPress.Markdown.Contents
