import DocPress.Toml.Value

-- Tables are put together from keys and headers that lead to their places.

namespace DocPress.Toml

-- A key is the path to a table and a name in it.
structure Key where
  path : List Text
  name : Text
  deriving DecidableEq, Repr

namespace Entries

-- Changes the value of a name, or adds it at the end.
def set (k : Text) (v : Value) : Entries → Entries
  | []          => [(k, v)]
  | (j, w) :: r => if j = k then (k, v) :: r else (j, w) :: set k v r

end Entries

-- A header may pass through any table but an inline one, a dotted key only through tables that have
-- no header.
def Origin.admits (dotted : Bool) : Origin → Bool
  | .inline            => false
  | .header            => !dotted
  | .implied | .dotted => true

-- Changes the table at the end of a path. Tables that are missing on the way are made, and an array
-- of tables stands for its last one.
def alter (dotted : Bool) (change : Origin → Entries → Option Entries) :
    List Text → Origin → Entries → Option Entries
  | [],      o, es => change o es
  | k :: ks, _, es =>
    match es.lookup k with
    | none => do
      let o := if dotted then .dotted else .implied
      return es.set k (.table o (← alter dotted change ks o []))
    | some (.table o t) =>
      if o.admits dotted then do return es.set k (.table o (← alter dotted change ks o t))
      else none
    | some (.tables ts) =>
      match dotted, ts.getLast? with
      | false, some (.table o t) => do
        return es.set k (.tables (ts.dropLast ++ [.table o (← alter dotted change ks o t)]))
      | _, _ => none
    | _ => none

-- A table is either filled by dotted keys or by plain ones, and a name is used once.
def addPair (es : Entries) (key : Key) (v : Value) : Option Entries :=
  let dotted := !key.path.isEmpty
  let add (o : Origin) (t : Entries) : Option Entries :=
    if (o == .dotted) == dotted && (t.lookup key.name).isNone then some (t ++ [(key.name, v)])
    else none
  alter dotted add key.path .header es

def addPairs (es : Entries) (pairs : List (Key × Value)) : Option Entries :=
  pairs.foldlM (fun es (k, v) => addPair es k v) es

-- A part of a document: the pairs below a header.
inductive Section where
  | table (key : Key) (pairs : List (Key × Value))
  | element (key : Key) (pairs : List (Key × Value))
  deriving Repr

-- A header names a table that is new or has only been passed through by other headers.
def openTable (name : Text) (pairs : List (Key × Value)) (es : Entries) : Option Entries :=
  match es.lookup name with
  | none                     => do return es.set name (.table .header (← addPairs [] pairs))
  | some (.table .implied t) => do return es.set name (.table .header (← addPairs t pairs))
  | _                        => none

-- A header between double brackets adds a table to an array.
def openElement (name : Text) (pairs : List (Key × Value)) (es : Entries) : Option Entries :=
  match es.lookup name with
  | none              => do return es.set name (.tables [.table .header (← addPairs [] pairs)])
  | some (.tables ts) => do
    return es.set name (.tables (ts ++ [.table .header (← addPairs [] pairs)]))
  | _                 => none

def addSection (es : Entries) : Section → Option Entries
  | .table key pairs   => alter false (fun _ => openTable key.name pairs) key.path .header es
  | .element key pairs => alter false (fun _ => openElement key.name pairs) key.path .header es

end DocPress.Toml
