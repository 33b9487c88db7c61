import DocPress.Text.Basic

-- Docstrings are blocks of text and of documented variables.

namespace DocPress.Docstring

-- A documented variable. The type may be empty.
structure Variable where
  name : Text
  type : Text
  doc  : Text
  deriving DecidableEq, Repr

inductive Block where
  | text (content : Text)
  -- A heading with free text below it.
  | titled (heading content : Text)
  -- A heading with variables below it.
  | variableList (heading : Text) (vars : List Variable)
  deriving DecidableEq, Repr

-- The headings that are recognised.
structure Vocabulary where
  sections : List Text := ["Notes", "Methods", "Examples", "See Also", "Notations"]
  varlists : List Text :=
    ["Parameters", "Attributes", "Properties", "Settings", "Returns", "Raises", "Keys"]
  deriving DecidableEq, Repr

end DocPress.Docstring
