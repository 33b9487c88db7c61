import DocPress.Docstring.Basic
import DocPress.Markdown.Options

namespace DocPress

-- What can be set for a run. Without a directory for the output it is printed.
structure Settings where
  outputDir  : Option Text := none
  markdown   : Markdown.Options := {}
  docstrings : Docstring.Vocabulary := {}
  deriving DecidableEq, Repr

end DocPress
