import DocPress.Proofs.Arena.Standing

-- Storing, copying and reading trees agree. Whatever is stored or copied takes up new nodes, so
-- that all older nodes are read as before.

namespace DocPress.Arena

open Tree Relation

-- A tree has been stored at a node. Its nodes are new, and there are no other new ones.
structure Stores (a : Arena) (t : Tree) (i : Nat) (b : Arena) : Prop where
  toTree : b.toTree i = t
  size   : b.size = a.size + t.size
  new    : ∀ j, ReflTransGen b.Child i j → a.size ≤ j
  kept   : ∀ j < a.size, b.toTree j = a.toTree j

-- What stands at one node has been copied to another one, with as many new nodes as there are at or
-- below the first one.
structure Copies (a : Arena) (i j : Nat) (b : Arena) : Prop extends
    Stores a (a.toTree i).pruned j b where
  nodes : ∃ js : List Nat, js.Nodup ∧ (∀ k, k ∈ js ↔ ReflTransGen a.Child i k) ∧
    b.size = a.size + js.length

variable {a b : Arena} {i j : Nat} {is js : List Nat} {t : Tree} {ts : List Tree}

theorem Holds.length_nodes (h : Holds a is ts js) : js.length = (namesAll ts).length := by
  induction h
  case nil          => rfl
  case leaf ih      => simp [namesAll, names, ih]
  case node ihu iht => simp [namesAll, names, ihu, iht]

theorem Holds.length_eq_size (h : Holds a [i] [t] js) : js.length = t.size := by
  rw [h.length_nodes, namesAll, namesAll, List.append_nil, Tree.size]

-- Older nodes stay as they are, and so does everything below them.
theorem Stored.stores (h : Stored a b [i] [t] js) (hf : Forest a) : Stores a t i b where
  toTree := h.holds.toTree_eq_singleton h.nodup
  size   := by rw [h.size_eq, h.holds.length_eq_size]
  new    := fun j hj => h.le_of_mem (h.holds.mem_iff_reaches.mpr hj)
  kept   := fun j hj => (hf.stands hj).toTree_congr fun k hk =>
    h.extends'.kept k ((hf.stands hj).lt_size_of_reaches hk)

theorem Forest.insertTree_stores (h : Forest a) (t : Tree) :
    Stores a t (a.insertTree t).1 (a.insertTree t).2 :=
  have ⟨_, hs⟩ := insertTree_stored t a
  hs.stores h

theorem Forest.copySubtree_copies (h : Forest a) (hi : i < a.size) :
    Copies a i (a.copySubtree i).1 (a.copySubtree i).2 := by
  have hs := h.insertTree_stores (a.toTree i).pruned
  have ⟨_, js, hh, hn⟩ := h.stands hi
  refine ⟨hs, js, hn, fun k => hh.mem_iff_reaches, hs.size.trans ?_⟩
  rw [size_pruned, hh.length_eq_size, hh.toTree_eq_singleton hn]

-- In an arena whose nodes form trees, what is read at a new node is what was stored there, and a
-- copy is the tree of its source with leaves in the place of nodes without children. Reading and
-- copying go down from each node to its children.
theorem forest_stores (h : Forest a) :
    (∀ t, Stores a t (a.insertTree t).1 (a.insertTree t).2) ∧
    (∀ d ns, Stores a (.node d (ns.map .leaf)) (a.insertStub d ns).1 (a.insertStub d ns).2) ∧
    ∀ i < a.size, Traversed a i ∧ Copies a i (a.copySubtree i).1 (a.copySubtree i).2 :=
  ⟨h.insertTree_stores, fun _ _ => h.insertTree_stores _,
    fun _ hi => ⟨(h.stands hi).traversed, h.copySubtree_copies hi⟩⟩

-- A node that has been given no children is stored as it is. Its copy is open again.
theorem forest_stores_childless :
    let t : Tree := .node ['a'] [.leaf ['b'], .node ['c'] []]
    let a := (empty.insertTree t).2
    Forest a ∧ 2 < a.size ∧ a.toTree 2 = t ∧ Stores a t 5 (a.insertTree t).2 ∧
      Stores a (.node ['d'] []) 3 (a.insertStub ['d'] []).2 ∧ Traversed a 2 ∧
      Copies a 2 5 (a.copySubtree 2).2 ∧
      (a.copySubtree 2).2.toTree 5 = .node ['a'] [.leaf ['b'], .leaf ['c']] := by
  intro t a
  have h : Forest a := ((Operation.insertTree t).spec .empty).left.forest
  have ⟨hi, hs, hc⟩ := forest_stores h
  have ⟨ht, hc⟩ := hc 2 (by decide)
  exact ⟨h, by decide, rfl, hi t, hs ['d'] [], ht, hc, hc.toTree⟩

end DocPress.Arena
