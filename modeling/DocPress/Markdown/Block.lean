import DocPress.Markdown.Fence
import DocPress.Markdown.Heading
import DocPress.Markdown.PipeTable
import DocPress.Tree.Html
import DocPress.Tree.Outline

-- The kinds of blocks and how each of them is set in HTML.

namespace DocPress.Markdown

open Text

inductive Kind where
  | heading
  | rule
  | paragraph
  | list
  | table
  | code
  deriving DecidableEq, Repr

-- A block is a piece of a document with its kind.
structure Block where
  kind : Kind
  text : Text
  deriving DecidableEq, Repr

namespace Block

def isRule (x : Text) : Bool :=
  !x.contains '\n' && decide (3 ≤ x.length) && x.all fun c => c = '-' || c = '=' || c = '*'

def isList : Text → Bool
  | '-' :: c :: _ => isBlank c
  | _             => false

-- The kinds are tried in a fixed order: a line of dashes is a rule and not a list, and a list that
-- holds bars is not a table.
def kindOf (x : Text) : Kind :=
  if isRule x then .rule
  else if Heading.accepts x then .heading
  else if isList x then .list
  else if PipeTable.accepts x then .table
  else if Fence.accepts x then .code
  else .paragraph

def ofText (x : Text) : Block where
  kind := kindOf x
  text := x

def isComment (x : Text) : Bool :=
  startsWith x "<!--" && endsWith x "-->"

-- Pieces of a page that are already written in its language.
def isVerbatim (x : Text) : Bool :=
  isComment x || startsWith x "<p" || startsWith x "<dl" || startsWith x "<div" ||
    startsWith x "<svg"

def paragraphHtml (x : Text) : Text :=
  if isVerbatim x then x else "<p>" ++ Emphasis.toHtml x ++ "</p>"

def listHtml (options : Options) (x : Text) : Text :=
  replace "<p>\n<ul>" ("<p>\n<ul class=\"" ++ options.listClass ++ "\">")
    ((Tree.ofOutline (Emphasis.toHtml x)).toHtml options.htmlIndent)

def toHtml (options : Options) (b : Block) : Text :=
  match b.kind with
  | .heading   => Heading.toHtml options b.text
  | .rule      => "<hr>"
  | .paragraph => paragraphHtml b.text
  | .list      => listHtml options b.text
  | .table     => PipeTable.toHtml options b.text
  | .code      => Fence.toHtml options b.text

end Block
end DocPress.Markdown
