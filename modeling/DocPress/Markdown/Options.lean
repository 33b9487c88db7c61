import DocPress.Text.Basic

-- What can be set for the conversion of documents.

namespace DocPress.Markdown

structure Options where
  -- The languages whose code is highlighted.
  codeLanguages    : List Text := ["python", "c"]
  -- The class of other code that names no language.
  defaultCodeClass : Text := "docstring"
  listClass        : Text := "md-list"
  -- What stands in front of every heading.
  tocAnchor        : Text := "<div class=\"toc-anchor\"></div>"
  -- The width of a step of indentation in lists and tables.
  htmlIndent       : Nat := 4
  deriving DecidableEq, Repr

end DocPress.Markdown
