import DocPress.Text.Search

-- Text inside HTML: the five characters with a meaning of their own are written as references.

namespace DocPress.Text

def escapeChar : Char → Text
  | '&' => "&amp;"
  | '<' => "&lt;"
  | '>' => "&gt;"
  | '"' => "&quot;"
  | '\x27' => "&#x27;"
  | c => [c]

def escape (x : Text) : Text :=
  x.flatMap escapeChar

end DocPress.Text
