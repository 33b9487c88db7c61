import DocPress.Markdown.Blocks
import DocPress.Markdown.Contents

namespace DocPress.Markdown

open Text

-- A document in the language of the web, with its table of contents.
structure Page where
  text : Text := []
  toc  : Text := []
  deriving DecidableEq, Repr

namespace Page

def ofBlocks (options : Options) (bs : List Block) : Page where
  text := joinBlocks (bs.map (·.toHtml options))
  toc  := Contents.toHtml options.htmlIndent ((bs.filter (·.kind = .heading)).map (·.text))

def ofText (options : Options) (x : Text) : Except Error Page :=
  if x.isEmpty then .ok {} else ofBlocks options <$> blocks x

end Page
end DocPress.Markdown
