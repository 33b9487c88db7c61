import DocPress.Arena.Basic
import DocPress.NameMap.Basic

-- Expansion puts copies of pending roots in the place of open nodes that carry their names.

namespace DocPress.Arena

-- One pass over open nodes: what has been spliced in so far, with the names it was found under.
structure Pass where
  arena : Arena
  done  : List (Text × Nat) := []

def Pass.names (p : Pass) : List Text :=
  p.done.map (·.1)

-- An open node is expanded if its name is pending, unless it is the name of the root, or one that
-- this pass has expanded already.
def Pass.visit (root : Text) (pending : NameMap Nat) (p : Pass) (i : Nat) : Pass :=
  let name := p.arena.name i
  if name = root || p.names.contains name then p
  else
    match pending.find? name with
    | none        => p
    | some source =>
      let (copy, arena) := p.arena.copyChildren source
      { arena := arena.setChildren i copy, done := p.done ++ [(name, source)] }

def pass (a : Arena) (root : Nat) (pending : NameMap Nat) : Pass :=
  (a.openNodes root).foldl (Pass.visit (a.name root) pending) { arena := a }

structure Expansion where
  arena   : Arena
  pending : NameMap Nat
  spliced : List Nat := []

-- Passes are made until one splices nothing. Names that were spliced are no longer pending, so
-- there are at most as many passes that splice something as there are pending names.
def expandUpTo (root : Nat) : Nat → Expansion → Expansion
  | 0,     e => e
  | n + 1, e =>
    let p := e.arena.pass root e.pending
    if p.done = [] then e
    else
      expandUpTo root n
        { arena   := p.arena
          pending := e.pending.filterKeys (!p.names.contains ·)
          spliced := e.spliced ++ p.done.map (·.2) }

def expand (a : Arena) (root : Nat) (pending : NameMap Nat) : Expansion :=
  expandUpTo root pending.size { arena := a, pending }

end DocPress.Arena
