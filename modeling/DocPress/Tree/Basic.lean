import DocPress.Text.Basic

namespace DocPress

-- A leaf can still be given children. A node has been given them, if only an empty list.
inductive Tree where
  | leaf (data : Text)
  | node (data : Text) (children : List Tree)
  deriving Inhabited, Repr

namespace Tree

def data : Tree → Text
  | leaf d | node d _ => d

def children : Tree → List Tree
  | leaf _    => []
  | node _ ts => ts

-- Nothing hangs below the tree.
def bare (t : Tree) : Bool :=
  t.children.isEmpty

mutual

-- The tree with leaves in the place of nodes that have been given no children.
def pruned : Tree → Tree
  | leaf d           => leaf d
  | node d []        => leaf d
  | node d (t :: ts) => node d (t.pruned :: prunedAll ts)

def prunedAll : List Tree → List Tree
  | []      => []
  | t :: ts => t.pruned :: prunedAll ts

end

end Tree
end DocPress
