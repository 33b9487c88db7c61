import DocPress.Arena.Expand

-- Deep trees from flat lists of names. Every entry starts as a root with leaves; a leaf that carries
-- the name of another root is given a copy of what hangs there, and the other root disappears.

namespace DocPress

namespace Arena

-- Stores the roots of all entries, in order.
def insertStubs : List (Text × List Text) → Arena → List Nat × Arena
  | [],               a => ([], a)
  | (name, names) :: es, a =>
    let (i, a) := a.insertStub name names
    let (is, a) := insertStubs es a
    (i :: is, a)

structure Merge where
  arena    : Arena
  consumed : List Nat := []

-- Expands one root by the others that are still there.
def Merge.step (roots : List Nat) (m : Merge) (root : Nat) : Merge :=
  if root ∈ m.consumed then m
  else
    let others := roots.filter fun i => i ≠ root ∧ i ∉ m.consumed
    let e := m.arena.expand root (.ofList (others.map fun i => (m.arena.name i, i)))
    { arena := e.arena, consumed := m.consumed ++ e.spliced }

def mergeRoots (a : Arena) (roots : List Nat) : Merge :=
  roots.foldl (Merge.step roots) { arena := a }

end Arena

-- The merged trees in the order of the entries, without the roots that nothing hangs below.
def mergeTrees (entries : List (Text × List Text)) : List Tree :=
  let (roots, arena) := Arena.insertStubs entries .empty
  let m := arena.mergeRoots roots
  (roots.filter fun i => i ∉ m.consumed ∧ m.arena.children i ≠ []).map m.arena.toTree

-- Expands the leaves of a tree by other trees, and tells the names of those that were spliced in.
def Tree.expand (t : Tree) (others : List Tree) : List Text × Tree :=
  if others.isEmpty then ([], t)
  else
    let (root, a) := Arena.empty.insertTree t
    let (is, a) := a.insertTrees others
    let e := a.expand root (.ofList ((others.map Tree.data).zip is))
    (e.spliced.map e.arena.name, e.arena.toTree root)

end DocPress
