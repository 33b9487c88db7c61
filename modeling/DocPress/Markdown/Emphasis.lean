import DocPress.Text.Blank
import DocPress.Text.Class
import DocPress.Text.Search

-- Emphasis and links inside a text. They are looked for in the text with a space on both sides, and
-- every snippet that is found is then replaced wherever it occurs.

namespace DocPress.Markdown.Emphasis

open Text

def opens (c : Char) : Bool :=
  isBlank c || c = '>'

def closes (c : Char) : Bool :=
  isBlank c || c = ',' || c = '.' || c = ':' || c = '<'

-- The width of a marked run at the front of a text: an opening character, marks, something between
-- them, marks, and a closing character.
def markedWidth (mark : Char) : Text → Nat
  | []     => 0
  | c :: x =>
    let left   := x.takeWhile (· = mark)
    let y      := x.dropWhile (· = mark)
    let middle := y.takeWhile (· ≠ mark)
    let z      := y.dropWhile (· ≠ mark)
    let right  := z.takeWhile (· = mark)
    match z.dropWhile (· = mark) with
    | []     => 0
    | d :: _ =>
      if opens c && !left.isEmpty && !middle.isEmpty && !right.isEmpty && closes d then
        left.length + middle.length + right.length + 2
      else 0

-- Puts an opening tag in the place of the first mark and a closing tag in that of the next one.
def tag (mark start stop : Text) (snippet : Text) : Text :=
  replaceFirst mark stop (replaceFirst mark start snippet)

def quoted (snippet : Text) : Text :=
  tag ['"'] "<i>&quot;" "&quot;</i>" snippet

def code (snippet : Text) : Text :=
  tag ['\x60'] "<code>" "</code>" snippet

-- The number of stars decides; a run with any other number of them stays as it is.
def starred (snippet : Text) : Text :=
  match snippet.count '*' with
  | 2 => tag "*" "<em>" "</em>" snippet
  | 4 => tag "**" "<b>" "</b>" snippet
  | 6 => tag "***" "<b><em>" "</em></b>" snippet
  | _ => snippet

-- A link with the characters that stand before and after it.
structure Link where
  before : Char
  name   : Text
  path   : Text
  after  : Char
  deriving DecidableEq, Repr

namespace Link

def isNameChar (c : Char) : Bool :=
  c = '.' || isWordChar c || isBlank c

def isPathChar (c : Char) : Bool :=
  isWordChar c || c = '.' || c = '#' || c = '-'

def closes (c : Char) : Bool :=
  isBlank c || c = ',' || c = '.' || c = ':'

-- The parentheses of a call, and what follows them.
def call? : Text → Option (Text × Text)
  | '(' :: x =>
    match x.dropWhile isWordChar with
    | ')' :: y => some ('(' :: x.takeWhile isWordChar ++ [')'], y)
    | _        => none
  | _ => none

-- The name of a link may end in a call.
def name? (x : Text) : Option (Text × Text) :=
  let name := x.takeWhile isNameChar
  let rest := x.dropWhile isNameChar
  if name.isEmpty then none
  else
    match call? rest with
    | some (call, rest) => some (name ++ call, rest)
    | none              => some (name, rest)

-- Reads a link at the front of a text.
def read? : Text → Option Link
  | c :: '[' :: x =>
    if isBlank c then
      match name? x with
      | some (name, ']' :: '(' :: y) =>
        match y.dropWhile isPathChar with
        | ')' :: d :: _ => if closes d then some ⟨c, name, y.takeWhile isPathChar, d⟩ else none
        | _             => none
      | _ => none
    else none
  | _ => none

def source (l : Link) : Text :=
  [l.before] ++ "[" ++ l.name ++ "](" ++ l.path ++ ")" ++ [l.after]

def html (l : Link) : Text :=
  [l.before] ++ "<a href=\"" ++ l.path ++ "\">" ++ l.name ++ "</a>" ++ [l.after]

def width (x : Text) : Nat :=
  ((read? x).map (·.source.length)).getD 0

end Link

def linked (snippet : Text) : Text :=
  ((Link.read? snippet).map (·.html)).getD snippet

def pad (x : Text) : Text :=
  [' '] ++ x ++ [' ']

def unpad (x : Text) : Text :=
  dropEnd [' '] (dropStart [' '] x)

-- Looks for snippets and replaces all occurrences of each, in the order in which they were found.
def edit (widthAt : Text → Nat) (f : Text → Text) (x : Text) : Text :=
  unpad ((findAll widthAt (pad x)).foldl (fun y s => replace s (f s) y) (pad x))

-- Quotes come first, then code, then stars, and links last.
def toHtml (x : Text) : Text :=
  edit Link.width linked
    (edit (markedWidth '*') starred
      (edit (markedWidth '\x60') code
        (edit (markedWidth '"') quoted x)))

end DocPress.Markdown.Emphasis
