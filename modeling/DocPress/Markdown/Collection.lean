import DocPress.Markdown.Blocks
import DocPress.Markdown.Contents

namespace DocPress.Markdown

open Text

-- Documents with names, in the order in which the names were first used.
structure Collection where
  documents : List (Text × Text)
  deriving DecidableEq, Repr

namespace Collection

def empty : Collection where
  documents := []

-- Changes the text of the document with a name, or adds the document at the end.
def put (name text : Text) : List (Text × Text) → List (Text × Text)
  | []          => [(name, text)]
  | (n, t) :: r => if n = name then (n, text) :: r else (n, t) :: put name text r

def insert (c : Collection) (name text : Text) : Collection where
  documents := put name text c.documents

def ofList (ds : List (Text × Text)) : Collection :=
  ds.foldl (fun c (name, text) => c.insert name text) empty

def find? (c : Collection) (name : Text) : Option Text :=
  c.documents.lookup name

def names (c : Collection) : List Text :=
  c.documents.map (·.1)

def fileOf (name : Text) : Text :=
  name ++ ".md"

-- The links of a document as an outline, nested as its headings are.
def outlineOf (name text : Text) : Except Error Text :=
  (fun hs => joinLines (Contents.items (fileOf name) hs)) <$> headings text

def outlineHtml (step : Nat) (outline : Text) : Text :=
  if blank outline then [] else (Tree.ofOutline outline).toHtml step

-- One table of contents for all documents.
def contents (c : Collection) (step : Nat) : Except Error Text :=
  (fun outlines => outlineHtml step (joinLines outlines)) <$>
    c.documents.mapM fun (name, text) => outlineOf name text

def section? (level step : Nat) (name text : Text) : Except Error Text := do
  let heading := List.replicate (max level 1) '#' ++ " " ++ name
  let toc := outlineHtml step (← outlineOf name text)
  return if toc.isEmpty then heading else joinBlocks [heading, toc]

-- A heading for every document, each with a table of contents of its own.
def sectionedContents (c : Collection) (level step : Nat) : Except Error Text :=
  joinBlocks <$> c.documents.mapM fun (name, text) => section? level step name text

-- The address of a heading of a document.
def resolve (c : Collection) (document heading : Text) : Except Error Text := do
  match c.find? document with
  | none      => throw (.missingDocument document)
  | some text =>
    match (Contents.entries (← headings text)).find? (·.text = heading) with
    | none   => throw (.missingHeading document heading)
    | some e => return e.href (fileOf document)

end Collection
end DocPress.Markdown
