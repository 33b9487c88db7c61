import DocPress.Tree.Basic

-- An arena stores the nodes of many trees side by side. A node is known by its number and refers to
-- its children by theirs, and new nodes are only ever added at the end.

namespace DocPress

-- A stored node. It is open as long as it has not been given children.
structure Arena.Entry where
  name     : Text
  children : Option (List Nat)
  deriving Inhabited, DecidableEq, Repr

structure Arena where
  entries : Array Arena.Entry

namespace Arena

def empty : Arena where
  entries := #[]

def size (a : Arena) : Nat :=
  a.entries.size

def name (a : Arena) (i : Nat) : Text :=
  (a.entries[i]?.map Entry.name).getD []

def children? (a : Arena) (i : Nat) : Option (List Nat) :=
  a.entries[i]?.bind Entry.children

def children (a : Arena) (i : Nat) : List Nat :=
  (a.children? i).getD []

-- Adds a node and tells its number.
def push (a : Arena) (name : Text) (children : Option (List Nat)) : Nat × Arena :=
  (a.size, ⟨a.entries.push ⟨name, children⟩⟩)

mutual

-- Stores a tree, the children before their parent.
def insertTree : Tree → Arena → Nat × Arena
  | .leaf d,    a => a.push d none
  | .node d ts, a =>
    let (is, a) := insertTrees ts a
    a.push d (some is)

def insertTrees : List Tree → Arena → List Nat × Arena
  | [],      a => ([], a)
  | t :: ts, a =>
    let (i, a) := insertTree t a
    let (is, a) := insertTrees ts a
    (i :: is, a)

end

-- Stores a root with a leaf for each of the names.
def insertStub (a : Arena) (name : Text) (names : List Text) : Nat × Arena :=
  a.insertTree (.node name (names.map .leaf))

-- Reads the tree below a node down to a depth.
def treeUpTo (a : Arena) : Nat → Nat → Tree
  | 0,     i => .leaf (a.name i)
  | n + 1, i =>
    match a.children? i with
    | none    => .leaf (a.name i)
    | some is => .node (a.name i) (is.map (a.treeUpTo n))

-- In an arena whose nodes form trees no branch is longer than the arena.
def toTree (a : Arena) (i : Nat) : Tree :=
  a.treeUpTo a.size i

-- Stores a copy of the tree below a node. In the copy, a node without children is open again.
def copySubtree (a : Arena) (i : Nat) : Nat × Arena :=
  a.insertTree (a.toTree i).pruned

def copyChildren (a : Arena) (i : Nat) : Option (List Nat) × Arena :=
  match (a.toTree i).pruned with
  | .leaf _    => (none, a)
  | .node _ ts =>
    let (is, a) := a.insertTrees ts
    (some is, a)

def setChildren (a : Arena) (i : Nat) (children : Option (List Nat)) : Arena where
  entries := a.entries.modify i ({ · with children })

-- The open nodes that are met on a walk from the nodes of a stack, in the order of the walk.
def openFrom (a : Arena) : Nat → List Nat → List Nat
  | 0,     _       => []
  | _ + 1, []      => []
  | n + 1, i :: is =>
    match a.children? i with
    | none    => i :: a.openFrom n is
    | some js => a.openFrom n (js ++ is)

-- The open nodes of the tree below a node. In an arena whose nodes form trees the walk meets no
-- node twice.
def openNodes (a : Arena) (i : Nat) : List Nat :=
  a.openFrom a.size [i]

end Arena
end DocPress
