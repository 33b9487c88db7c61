import DocPress.Text.Basic

namespace DocPress

-- The causes for which a document is refused.
inductive Error where
  -- A fenced block that was opened on a line, counted from one, is still open at the end.
  | unclosedFence (line : Nat)
  | malformedSection (heading : Text)
  | missingDocument (name : Text)
  | missingHeading (document heading : Text)
  deriving DecidableEq, Repr

def Error.message : Error → Text
  | unclosedFence n      => "text has an unclosed code block opened at line " ++ Text.decimal n
  | malformedSection h   => "section '" ++ h ++ "' has an underline but no body can be split off"
  | missingDocument d    => "document not found: " ++ d
  | missingHeading d h   => "heading '" ++ h ++ "' not found in document " ++ d

end DocPress
