import DocPress.Text.Basic

-- Paths are texts in which slashes separate names. A single dot names the directory that it stands
-- in and two of them the one above.

namespace DocPress

abbrev Path := Text

namespace Path

open Text

-- Takes trailing slashes and dots off a path that is given backwards.
def bareReversed : Text → Text
  | '/' :: x        => bareReversed x
  | '.' :: '/' :: x => bareReversed x
  | x               => x

def bare (p : Path) : Path :=
  (bareReversed p.reverse).reverse

-- What stands behind the last slash of a path without trailing slashes and dots.
def lastName (p : Path) : Text :=
  ((bare p).reverse.takeWhile (· ≠ '/')).reverse

def fileName? (p : Path) : Option Text :=
  let name := lastName p
  if name = [] ∨ name = "." ∨ name = ".." then none else some name

-- The parts of a name before and after its last dot.
def splitLastDot? (name : Text) : Option (Text × Text) :=
  (splitAt? '.' name.reverse).map fun (a, b) => (b.reverse, a.reverse)

-- A name up to its last dot. A dot at the start of a name does not count.
def stemOf (name : Text) : Text :=
  match splitLastDot? name with
  | some (before, _) => if before = [] then name else before
  | none             => name

def stem? (p : Path) : Option Text :=
  (fileName? p).map stemOf

-- The path of a name in a directory.
def join (dir : Path) (name : Text) : Path :=
  if dir = [] ∨ dir.getLast? = some '/' then dir ++ name else dir ++ ['/'] ++ name

-- Changes what follows the stem of the last name.
def withExtension (p : Path) (extension : Text) : Path :=
  match fileName? p with
  | none      => p
  | some name =>
    let kept := (bare p).take ((bare p).length - name.length + (stemOf name).length)
    if extension = [] then kept else kept ++ ['.'] ++ extension

-- The directory that a path lies in. The root lies in none.
def parent? (p : Path) : Option Path :=
  let name := lastName p
  if name = [] then none
  else
    let rest := (bare p).take ((bare p).length - name.length)
    if rest ≠ [] ∧ bare rest = [] then some ['/'] else some (bare rest)

end Path
end DocPress
