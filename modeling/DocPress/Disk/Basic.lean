import DocPress.Disk.Path

-- The part of a file system that a run can see.

namespace DocPress

open Text

-- Where a file or directory lies: the names on the way to it, from the working directory, or from
-- the root behind a slash.
abbrev Place := List Text

inductive Disk.Node where
  -- A file with its text, if its bytes are the bytes of a text.
  | file (content : Option Text)
  | directory
  deriving DecidableEq, Repr

structure Disk where
  entries : List (Place × Disk.Node)
  deriving Repr

-- The causes for which a file operation fails.
inductive Fault where
  | missing
  | taken
  | notDirectory
  | isDirectory
  | nameTooLong
  | nulInName
  | notText
  deriving DecidableEq, Repr

def Fault.message : Fault → Text
  | missing      => "No such file or directory (os error 2)"
  | taken        => "File exists (os error 17)"
  | notDirectory => "Not a directory (os error 20)"
  | isDirectory  => "Is a directory (os error 21)"
  | nameTooLong  => "File name too long (os error 36)"
  | nulInName    => "file name contained an unexpected NUL byte"
  | notText      => "stream did not contain valid UTF-8"

namespace Disk

def empty : Disk where
  entries := []

def root : Place := [['/']]

def above : Text := ['.', '.']

-- The root, the working directory and what lies above it are there without being listed.
def node? (d : Disk) (p : Place) : Option Node :=
  if p = root ∨ p.all (· = above) then some .directory else d.entries.lookup p

def set (d : Disk) (p : Place) (n : Node) : Disk where
  entries := (p, n) :: d.entries.filter (·.1 ≠ p)

def maxName : Nat := 255

def maxPath : Nat := 4095

def bytes : Text → Nat
  | []     => 0
  | c :: x => c.utf8Size + bytes x

-- The place that a name leads to from a directory.
def enter (p : Place) (name : Text) : Place :=
  if name = [] ∨ name = ['.'] then p
  else if name = above then
    if p = root then p
    else if p.all (· = above) then p ++ [above]
    else p.dropLast
  else p ++ [name]

-- Follows names from a place. All that names are looked up in has to be a directory.
def walk (d : Disk) : Place → List Text → Except Fault Place
  | p, []      => .ok p
  | p, n :: ns =>
    match d.node? p with
    | none            => .error .missing
    | some (.file _)  => .error .notDirectory
    | some .directory => if maxName < bytes n then .error .nameTooLong else d.walk (enter p n) ns

def start (p : Path) : Place :=
  if p.head? = some '/' then root else []

def names (p : Path) : List Text :=
  (p.splitOn '/').filter (· ≠ [])

-- A slash at the end asks for a directory, as a dot behind it would.
def steps (p : Path) : List Text :=
  names p ++ if p.getLast? = some '/' then [['.']] else []

def locate (d : Disk) (p : Path) : Except Fault Place :=
  if p.contains '\x00' then .error .nulInName
  else if p = [] then .error .missing
  else if maxPath < bytes p then .error .nameTooLong
  else d.walk (start p) (steps p)

def exists? (d : Disk) (p : Path) : Bool :=
  match d.locate p with
  | .ok place => (d.node? place).isSome
  | .error _  => false

def read (d : Disk) (p : Path) : Except Fault Text := do
  match d.node? (← d.locate p) with
  | none                  => throw .missing
  | some .directory       => throw .isDirectory
  | some (.file none)     => throw .notText
  | some (.file (some x)) => return x

def write (d : Disk) (p : Path) (x : Text) : Except Fault Disk := do
  let place ← d.locate p
  match d.node? place with
  | some .directory => throw .isDirectory
  | _               => return d.set place (.file (some x))

-- Makes the directories that are missing on the way along names.
def makeAlong (d : Disk) : Place → List Text → Except Fault Disk
  | _, []      => .ok d
  | p, n :: ns =>
    if maxName < bytes n then .error .nameTooLong
    else
      let q := enter p n
      match d.node? q with
      | none            => (d.set q .directory).makeAlong q ns
      | some .directory => d.makeAlong q ns
      | some (.file _)  => .error (if ns.isEmpty then .taken else .notDirectory)

def makeDirectories (d : Disk) (p : Path) : Except Fault Disk :=
  if p.contains '\x00' then .error .nulInName
  else if maxPath < bytes p then .error .nameTooLong
  else d.makeAlong (start p) (names p)

-- Puts a file or directory at a path, and the directories that lead to it.
def put (d : Disk) (p : Path) (n : Node) : Except Fault Disk := do
  let d ← match p.parent? with
    | none     => pure d
    | some dir => d.makeDirectories dir
  match n with
  | .directory => d.makeDirectories p
  | .file _    => return d.set (← d.locate p) n

end Disk
end DocPress
