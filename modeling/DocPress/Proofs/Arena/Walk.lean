import DocPress.Proofs.Arena.Copies

-- The walk that finds the open nodes below a node, as a loop with a stack. Its rounds visit the
-- nodes of the tree in pre-order, so that it agrees with going down from each node to its children.

namespace DocPress.Arena

open Tree Relation

-- A walk that is under way: the nodes that are on its stack, the next one last, and the open nodes
-- that it has met.
structure Walk where
  stack : List Nat
  met   : List Nat

namespace Walk

def start (i : Nat) : Walk where
  stack := [i]
  met   := []

-- One round takes a node from the end of the stack. If it is not open, its children are put there
-- in reverse, so that the first one is next. There is no round for a node that does not exist.
def next? (a : Arena) (w : Walk) : Option Walk := do
  let i ← w.stack.getLast?
  let e ← a.entries[i]?
  match e.children with
  | none    => some { stack := w.stack.dropLast, met := w.met ++ [i] }
  | some js => some { w with stack := w.stack.dropLast ++ js.reverse }

-- A walk ends after so many rounds, with nothing left on its stack. The open nodes that it has met
-- by then are what it returns.
inductive Ends (a : Arena) : Nat → Walk → List Nat → Prop
  | stop  : w.stack = [] → Ends a 0 w w.met
  | round : w.next? a = some v → Ends a n v ms → Ends a (n + 1) w ms

-- The nodes that a walk has ahead of it are those of the trees at the nodes of its stack, in
-- pre-order.
def Ahead (a : Arena) (w : Walk) (js : List Nat) : Prop :=
  ∃ ts, Holds a w.stack.reverse ts js

end Walk

-- The walk from a node comes to an end. It has then met the open nodes of the tree that is read
-- there, each of them once and in pre-order, as if it had gone down from each node to its children.
structure DepthFirst (a : Arena) (i : Nat) : Prop where
  ends      : Walk.Ends a (a.toTree i).size (.start i) (a.openNodes i)
  preorder  : ∃ js, Holds a [i] [a.toTree i] js ∧ a.openNodes i = js.filter a.isOpen
  recursive :
    a.openNodes i =
      match a.children? i with
      | none    => [i]
      | some is => is.flatMap a.openNodes
  nodup     : (a.openNodes i).Nodup
  mem_iff   : ∀ j, j ∈ a.openNodes i ↔ ReflTransGen a.Child i j ∧ a.children? j = none

variable {a : Arena} {i j : Nat} {is js ks ms : List Nat} {d : Text} {ts : List Tree} {w : Walk}

namespace Walk

theorem next?_leaf (he : a.entries[i]? = some ⟨d, none⟩) :
    next? a ⟨is ++ [i], ms⟩ = some ⟨is, ms ++ [i]⟩ := by
  simp [next?, he]

theorem next?_node (he : a.entries[i]? = some ⟨d, some ks⟩) :
    next? a ⟨is ++ [i], ms⟩ = some ⟨is ++ ks.reverse, ms⟩ := by
  simp [next?, he]

namespace Ahead

theorem start (h : Holds a [i] ts js) : Ahead a (.start i) js :=
  ⟨ts, h⟩

theorem stack_eq_nil (h : Ahead a w []) : w.stack = [] := by
  have ⟨_, h⟩ := h
  exact List.reverse_eq_nil_iff.mp (List.sublist_nil.mp h.sublist)

-- A round visits the first of the nodes ahead.
theorem next? (h : Ahead a w (j :: js)) :
    ∃ v, w.next? a = some v ∧ Ahead a v js ∧
      v.met ++ js.filter a.isOpen = w.met ++ (j :: js).filter a.isOpen := by
  obtain ⟨is, ms⟩ := w
  obtain ⟨ts, h⟩ := h
  -- The trees can only be taken apart at a list of nodes that is not a reversed one.
  generalize hr : is.reverse = rs at h
  cases h
  case leaf rs ts d he h =>
    cases List.reverse_eq_cons_iff.mp hr
    refine ⟨_, next?_leaf he, ⟨ts, ?_⟩, ?_⟩
    · simpa using h
    · simp [isOpen_of_entry he]
  case node ks us ls rs ts js d hu h he =>
    cases List.reverse_eq_cons_iff.mp hr
    refine ⟨_, next?_node he, ⟨us ++ ts, ?_⟩, ?_⟩
    · simpa using hu.append h
    · simp [isOpen_of_entry he]

theorem ends (h : Ahead a w js) : Ends a js.length w (w.met ++ js.filter a.isOpen) := by
  induction js generalizing w
  case nil =>
    rw [List.filter_nil, List.append_nil]
    exact .stop h.stack_eq_nil
  case cons j js ih =>
    have ⟨v, hv, ha, hm⟩ := h.next?
    rw [← hm]
    exact .round hv (ih ha)

end Ahead
end Walk

theorem Holds.flatMap_openNodes (h : Holds a is ts js) (hn : js.Nodup) :
    is.flatMap a.openNodes = js.filter a.isOpen := by
  induction is generalizing ts js
  case nil =>
    cases h
    rfl
  case cons i is ih =>
    have ⟨_, _, ks, ls, _, hj, hi, hr⟩ := h.cons_inv
    subst hj
    have ⟨hk, hl, _⟩ := List.nodup_append.mp hn
    rw [List.flatMap_cons, hi.openNodes_eq hk, ih hr hl, List.filter_append]

theorem Stands.openNodes_recursive (h : Stands a i) :
    a.openNodes i =
      match a.children? i with
      | none    => [i]
      | some is => is.flatMap a.openNodes := by
  have ⟨t, js, hh, hn⟩ := h
  rw [hh.openNodes_eq hn]
  cases hh
  case leaf js d he h =>
    cases h
    simp [children?_of_entry he, isOpen_of_entry he]
  case node ks us ls js d hu he h =>
    cases h
    have ⟨_, hn⟩ := List.nodup_cons.mp hn
    rw [List.append_nil] at hn
    simp [children?_of_entry he, isOpen_of_entry he, hu.flatMap_openNodes hn]

theorem Stands.depthFirst (h : Stands a i) : DepthFirst a i := by
  have ⟨t, js, hh, hn⟩ := h
  have ht : a.toTree i = t := hh.toTree_eq_singleton hn
  have ho : a.openNodes i = js.filter a.isOpen := hh.openNodes_eq hn
  refine ⟨?ends, ⟨js, ht ▸ hh, ho⟩, h.openNodes_recursive, h.nodup_openNodes,
    fun _ => h.mem_openNodes_iff⟩
  case ends =>
    rw [ho, ht, ← hh.length_eq_size]
    exact (Walk.Ahead.start hh).ends

-- In an arena that operations have built, the walk from any node makes one round for each node of
-- the tree there, and meets the open ones in pre-order.
theorem openNodes_depthFirst (h : ReflTransGen Operation empty a) (hi : i < a.size) :
    DepthFirst a i :=
  ((Operation.spec_all h .empty).left.stands hi).depthFirst

-- The children that an expansion has given to a leaf come first, although their numbers are higher
-- than those of their siblings. A node with an empty list of children is not met.
theorem openNodes_depthFirst_expanded :
    let t : Tree := .node ['a'] [.node ['x'] [], .leaf ['b'], .leaf ['c']]
    let u : Tree := .node ['b'] [.leaf ['d'], .leaf ['e']]
    let a := ((empty.insertTree t).2.insertTree u).2
    let b := (a.expand 3 (.ofList [(['b'], 6)])).arena
    ReflTransGen Operation empty b ∧ 3 < b.size ∧ b.children? 3 = some [0, 1, 2] ∧
      b.children? 0 = some [] ∧ b.children? 1 = some [7, 8] ∧ b.openNodes 3 = [7, 8, 2] ∧
      DepthFirst b 3 ∧ Walk.Ends b 6 (.start 3) [7, 8, 2] := by
  intro t u a b
  have hp : ∀ k s, (NameMap.ofList [(['b'], 6)]).find? k = some s → s < a.size := by
    intro k s hk
    cases List.mem_singleton.mp (NameMap.mem_of_find?_ofList hk)
    decide
  have hb : ReflTransGen Operation empty b :=
    .tail (.tail (.single (.insertTree t)) (.insertTree u)) (.expand (by decide) hp)
  have hd : DepthFirst b 3 := openNodes_depthFirst hb (by decide)
  have ho : b.openNodes 3 = [7, 8, 2] := by decide
  have ht : (b.toTree 3).size = 6 := by decide
  exact ⟨hb, by decide, by decide, by decide, by decide, ho, hd, ho ▸ ht ▸ hd.ends⟩

end DocPress.Arena
