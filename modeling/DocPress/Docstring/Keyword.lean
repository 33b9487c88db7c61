import DocPress.Markdown.Emphasis

-- Keywords that stand by themselves are emphasised in descriptions.

namespace DocPress.Docstring

open Text Markdown

def keywords : List Text := ["True", "False", "None"]

-- The width of a keyword at the front of a text, with the two characters around it.
def keywordWidth : Text → Nat
  | []     => 0
  | c :: x =>
    if isWordChar c then 0
    else
      match keywords.find? (startsWith x ·) with
      | none   => 0
      | some k =>
        match x.drop k.length with
        | []     => 0
        | d :: _ => if isWordChar d then 0 else k.length + 2

def emphasizeKeyword (snippet : Text) : Text :=
  snippet.take 1 ++ "<em>" ++ (snippet.drop 1).dropLast ++ "</em>" ++ snippet.getLast?.toList

def emphasizeKeywords (x : Text) : Text :=
  Emphasis.unpad (substitute keywordWidth emphasizeKeyword (Emphasis.pad x))

def emphasize (x : Text) : Text :=
  Emphasis.toHtml (emphasizeKeywords x)

end DocPress.Docstring
