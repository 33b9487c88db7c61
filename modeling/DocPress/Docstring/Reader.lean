import DocPress.Docstring.Basic
import DocPress.Error
import DocPress.Text.Margin
import DocPress.Text.Search

-- Blank lines separate the blocks of a docstring, and an underlined heading that is known tells
-- what a block holds.

namespace DocPress.Docstring

open Text

-- The width of the break between two paragraphs: a line feed, white space, and the last line feed
-- of it. What follows that line feed is the indentation of the next paragraph.
def breakWidth : Text → Nat
  | '\n' :: x =>
    match (x.takeWhile isBlank).reverse.dropWhile (· ≠ '\n') with
    | []         => 0
    | blankLines => blankLines.length + 1
  | _ => 0

def paragraphs (x : Text) : List Text :=
  ((splitAround breakWidth x).map (trimBy (· = '\n'))).filter (· ≠ [])

inductive Kind where
  | titled
  | variableList
  | text
  deriving DecidableEq, Repr

def isUnderline (l : Text) : Bool :=
  decide (3 ≤ l.length) && l.all (· = '-')

-- The paragraph opens with one of the words, underlined.
def hasHeading (words : List Text) (par : Text) : Bool :=
  match splitAt? '\n' par with
  | none               => false
  | some (first, rest) => words.contains first && isUnderline (firstLine rest)

def kindOf (vocabulary : Vocabulary) (par : Text) : Kind :=
  if hasHeading vocabulary.sections par then .titled
  else if hasHeading vocabulary.varlists par then .variableList
  else .text

-- The parts around the first line feed that a dash follows.
def splitUnderline? : Text → Option (Text × Text)
  | '\n' :: '-' :: x => some ([], '-' :: x)
  | c :: x           => (splitUnderline? x).map fun (a, b) => (c :: a, b)
  | []               => none

-- The heading of a paragraph and what stands behind the dashes of its underline.
def splitHeading (par : Text) : Except Error (Text × Text) :=
  match splitUnderline? par with
  | none               => .error (.malformedSection ((lines par).headD []))
  | some (first, rest) => .ok (first, rest.dropWhile (· = '-'))

-- A line that is not indented defines a variable.
def defines (l : Text) : Bool :=
  l.head? ≠ some ' '

-- The first colon of a definition separates the name from the type.
def Variable.read (definition doc : Text) : Variable :=
  match splitAt? ':' definition with
  | some (name, type) => ⟨trim name, trim type, dedent doc⟩
  | none              => ⟨trim definition, [], dedent doc⟩

-- Every definition takes the lines up to the next one. Lines before the first definition belong to
-- no variable.
def definitions : List Text → List (Text × List Text)
  | []      => []
  | l :: ls =>
    if defines l then (l, ls.takeWhile (!defines ·)) :: definitions ls else definitions ls

def readVariables (body : Text) : List Variable :=
  if blank body then []
  else (definitions ((lines body).filter (· ≠ []))).map fun (l, doc) => .read l (joinLines doc)

def readParagraph (vocabulary : Vocabulary) (par : Text) : Except Error Block :=
  match kindOf vocabulary par with
  | .text      => .ok (.text par)
  | .titled    => (fun (heading, body) => .titled heading (trim body)) <$> splitHeading par
  | .variableList =>
    (fun (heading, body) => .variableList heading (readVariables body)) <$> splitHeading par

def read (vocabulary : Vocabulary) (x : Text) : Except Error (List Block) :=
  (paragraphs x).mapM (readParagraph vocabulary)

end DocPress.Docstring
