import DocPress.Markdown.Options
import DocPress.Text.Blank

-- Headings: the number of markers is the level.

namespace DocPress.Markdown.Heading

open Text

-- A single line of markers, white space, and the content.
def accepts (x : Text) : Bool :=
  !x.contains '\n' && x.head? = some '#' && (x.dropWhile (· = '#')).head?.any isBlank

def level (x : Text) : Nat :=
  (x.takeWhile (· = '#')).length

def content (x : Text) : Text :=
  x.dropWhile fun c => c = '#' || c = ' '

def toHtml (options : Options) (x : Text) : Text :=
  let level := decimal (level x)
  options.tocAnchor ++ "<h" ++ level ++ ">" ++ content x ++ "</h" ++ level ++ ">"

end DocPress.Markdown.Heading
