import DocPress.NameMap.Basic
import DocPress.Tree.Drawing

-- Maps from names to names, such as classes with their bases or modules with their imports.

namespace DocPress.NameMap

-- The pairs of a name and one of the names it is mapped to.
def pairs (m : NameMap (List Text)) : List (Text × Text) :=
  m.entries.flatMap fun (k, vs) => vs.map (k, ·)

def addKey (m : NameMap (List Text)) (value key : Text) : NameMap (List Text) :=
  let keys := (m.find? value).getD []
  m.insert value (if keys.contains key then keys else keys ++ [key])

-- Maps every value to the keys that list it.
def invert (m : NameMap (List Text)) : NameMap (List Text) :=
  m.pairs.foldl (fun inverted (key, value) => inverted.addKey value key) empty

-- Keeps the values that are keys of the map themselves.
def native (m : NameMap (List Text)) : NameMap (List Text) :=
  m.map (·.filter m.contains)

def toTree (root : Text) (m : NameMap (List Text)) : Tree :=
  .node root (m.entries.map fun (k, vs) => .node k (vs.map .leaf))

def draw (root : Text) (m : NameMap (List Text)) : Text :=
  if m.entries.isEmpty then [] else (m.toTree root).draw

end DocPress.NameMap
