import DocPress.Toml.Scalar
import DocPress.Toml.Table

-- Documents: first the pairs of the top table, then headers, each with the pairs below it.

namespace DocPress.Toml

open Text

def skipSpace (x : Text) : Text :=
  x.dropWhile isSpace

-- Skips space, line ends and comments. A comment goes up to the end of its line.
def skipVoid (comment : Bool) : Text → Option Text
  | []     => some []
  | c :: x =>
    if c = '\n' then skipVoid false x
    else if c = '\r' then if x.head? = some '\n' then skipVoid comment x else none
    else if comment then if isPlain c then skipVoid true x else none
    else if isSpace c then skipVoid false x
    else if c = '#' then skipVoid true x
    else some (c :: x)

-- Only a comment may follow on the same line.
def endLine (x : Text) : Option Text :=
  match skipSpace x with
  | []       => some []
  | '#' :: y => if (y.dropWhile isPlain).isEmpty then some [] else newline? (y.dropWhile isPlain)
  | y        => newline? y

def isBareChar (c : Char) : Bool :=
  c.isAlphanum || c = '_' || c = '-'

def simpleKey? (x : Text) : Option (Text × Text) :=
  match x with
  | '"' :: y    => readQuoted .basic y
  | '\x27' :: y => readQuoted .literal y
  | _           =>
    let name := x.takeWhile isBareChar
    if name.isEmpty then none else some (name, x.dropWhile isBareChar)

-- Names with dots between them.
def names? : Nat → Text → Option (List Text × Text)
  | 0,     _ => none
  | n + 1, x => do
    let (name, x) ← simpleKey? (skipSpace x)
    match skipSpace x with
    | '.' :: y => do
      let (names, y) ← names? n y
      return (name :: names, y)
    | y => return ([name], y)

def key? (x : Text) : Option (Key × Text) := do
  let (names, x) ← names? x.length x
  return (⟨names.dropLast, names.getLastD []⟩, x)

-- Arrays and inline tables may be nested as deep as this.
def maxDepth : Nat := 80

mutual

-- Reads a value with so many steps, at a depth.
def value? : Nat → Nat → Text → Option (Value × Text)
  | 0,     _,     _ => none
  | n + 1, depth, x =>
    match x with
    | '[' :: y =>
      if maxDepth ≤ depth then none
      else (items? n (depth + 1) y).map fun (vs, z) => (.array vs, z)
    | '\x7b' :: y =>
      if maxDepth ≤ depth then none
      else do
        let (pairs, z) ← pairs? n (depth + 1) y
        return (.table .inline (← addPairs [] pairs), z)
    | '"' :: _    => (quoted? x).map fun (y, z) => (.string y, z)
    | '\x27' :: _ => (quoted? x).map fun (y, z) => (.string y, z)
    | _           => scalar? x

-- The items of an array up to its bracket. A comma may follow the last one.
def items? : Nat → Nat → Text → Option (List Value × Text)
  | 0,     _,     _ => none
  | n + 1, depth, x => do
    match ← skipVoid false x with
    | ']' :: y => return ([], y)
    | y => do
      let (v, y) ← value? n depth y
      match ← skipVoid false y with
      | ',' :: z => do
        let (vs, z) ← items? n depth z
        return (v :: vs, z)
      | ']' :: z => return ([v], z)
      | _        => none

-- The pairs of an inline table up to its brace.
def pairs? : Nat → Nat → Text → Option (List (Key × Value) × Text)
  | 0,     _,     _ => none
  | n + 1, depth, x => do
    match ← skipVoid false x with
    | '\x7d' :: y => return ([], y)
    | y => do
      let (k, y) ← key? y
      let y ← after? '=' y
      let (v, y) ← value? n depth (skipSpace y)
      match ← skipVoid false y with
      | ',' :: z => do
        let (ps, z) ← pairs? n depth z
        return ((k, v) :: ps, z)
      | '\x7d' :: z => return ([(k, v)], z)
      | _           => none

end

def pair? (x : Text) : Option ((Key × Value) × Text) := do
  let (k, x) ← key? x
  let x ← after? '=' x
  let (v, x) ← value? (2 * x.length) 0 (skipSpace x)
  return ((k, v), ← endLine x)

-- The pairs up to the next header.
def block? : Nat → Text → Option (List (Key × Value) × Text)
  | 0,     _ => none
  | n + 1, x => do
    match ← skipVoid false x with
    | []       => return ([], [])
    | '[' :: y => return ([], '[' :: y)
    | y => do
      let (p, y) ← pair? y
      let (ps, y) ← block? n y
      return (p :: ps, y)

def tableHeader? (x : Text) : Option (Key × Text) := do
  let (k, x) ← key? x
  let x ← after? ']' x
  return (k, ← endLine x)

def elementHeader? (x : Text) : Option (Key × Text) := do
  let (k, x) ← key? x
  let x ← after? ']' x >>= after? ']'
  return (k, ← endLine x)

-- The headers that are left, each with the pairs below it.
def sections? : Nat → Text → Option (List Section)
  | _,     []               => some []
  | 0,     _                => none
  | n + 1, '[' :: '[' :: x => do
    let (k, x) ← elementHeader? x
    let (ps, x) ← block? (x.length + 1) x
    return .element k ps :: (← sections? n x)
  | n + 1, '[' :: x => do
    let (k, x) ← tableHeader? x
    let (ps, x) ← block? (x.length + 1) x
    return .table k ps :: (← sections? n x)
  | _ + 1, _ => none

-- A mark of the byte order may stand in front of a document.
def read? (x : Text) : Option Entries := do
  let x := dropStart ['\uFEFF'] x
  let (pairs, x) ← block? (x.length + 1) x
  let sections ← sections? x.length x
  sections.foldlM addSection (← addPairs [] pairs)

end DocPress.Toml
