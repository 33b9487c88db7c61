import DocPress.Docstring.Basic
import DocPress.Docstring.Keyword
import DocPress.Text.Margin

-- Docstrings as Markdown or as reStructuredText. Variables are set in HTML in both.

namespace DocPress.Docstring

open Text

inductive Format where
  | markdown
  | rst
  deriving DecidableEq, Repr

def wrap (start stop x : Text) : Text :=
  if x.isEmpty then [] else start ++ x ++ stop

namespace Variable

def nameHtml (name : Text) : Text :=
  wrap "<code>" "</code>" name

def typeHtml (type : Text) : Text :=
  wrap "<em>" "</em>" type

-- The name and the type of a variable. One that stands alone is set in italics.
def definition (name type : Text) : Text :=
  if name.isEmpty || type.isEmpty then
    replace "</code>" "</em>"
      (replace "<code>" "<em>" (if name.isEmpty then typeHtml type else nameHtml name))
  else nameHtml name ++ " : " ++ typeHtml type

def definitionHtml (name type : Text) : Text :=
  "<p><span class=\"vardef\">" ++ definition name type ++ "</span></p>"

-- The lines of a description, each two spaces from the margin.
def docHtml (doc : Text) : Text :=
  "<dl><dd>\n" ++ joinLines ((lines (emphasize doc)).map ("  " ++ trimStart ·)) ++ "\n</dd></dl>"

def print (v : Variable) : Text :=
  joinBlocks [definitionHtml v.name v.type, docHtml v.doc]

end Variable

namespace Format

def heading : Format → Text → Text
  | markdown, h => "<b>" ++ h ++ "</b>"
  | rst,      h => "**" ++ h ++ "**"

def content : Format → Text → Text
  | markdown, x => emphasize x
  | rst,      x => x

def raw : Format → Text → Text
  | markdown, x => x
  | rst,      x => joinBlocks [".. raw:: html", indent "   " x]

def variableList (f : Format) (vs : List Variable) : Text :=
  let x := joinBlocks (vs.map (·.print))
  if x.isEmpty then [] else f.raw x

-- Parts that are empty are left out, with the space around them.
def assemble (parts : List Text) : Text :=
  joinBlocks (parts.filter (· ≠ []))

def printBlock (f : Format) : Block → Text
  | .text content         => content
  | .titled heading x     => assemble [f.heading heading, f.content x]
  | .variableList heading vs => assemble [f.heading heading, f.variableList vs]

def print (f : Format) (bs : List Block) : Text :=
  joinBlocks (bs.map f.printBlock)

end Format
end DocPress.Docstring
