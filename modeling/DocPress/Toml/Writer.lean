import DocPress.Toml.Quoted

-- Pairs and headers of a document in their written form.

namespace DocPress.Toml

open Text

def writeItem (x : Text) : Text :=
  spaces 4 ++ writeQuoted x ++ ",\n"

-- An array of texts. More than one of them are written on lines of their own.
def writeTexts : List Text → Text
  | []  => "[]"
  | [x] => "[" ++ writeQuoted x ++ "]"
  | xs  => "[\n" ++ (xs.map writeItem).flatten ++ "]"

def writePair (key value : Text) : Text :=
  key ++ " = " ++ value ++ "\n"

def writeHeader (name : Text) : Text :=
  "[" ++ name ++ "]\n"

end DocPress.Toml
