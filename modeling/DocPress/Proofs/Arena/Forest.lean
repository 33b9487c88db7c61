import Mathlib.Logic.Relation
import Mathlib.Order.WellFounded
import DocPress.Proofs.Arena.Expansion

-- The arenas that operations can build. Their nodes always form trees, so that reading and copying
-- come to an end, and what is stored once stays as it is.

namespace DocPress.Arena

open Tree Relation

def Child (a : Arena) (i j : Nat) : Prop :=
  j ∈ a.children i

-- The operations on an arena. They may be given the numbers of any of its nodes; in particular, a
-- pending name may lead to the root of the expansion or to any node above or below it.
inductive Operation (a : Arena) : Arena → Prop
  | insertTree (t : Tree) : Operation a (insertTree t a).2
  | insertStub (d : Text) (ns : List Text) : Operation a (a.insertStub d ns).2
  | copySubtree : i < a.size → Operation a (a.copySubtree i).2
  | expand : r < a.size → (∀ k s, pending.find? k = some s → s < a.size) →
    Operation a (a.expand r pending).arena

-- The nodes of an arena form trees: a node is the child of one node at most, and going down from
-- children to children ends.
structure Forest (a : Arena) : Prop where
  inRange : ∀ i j, a.Child i j → j < a.size
  unique  : ((List.range a.size).flatMap a.children).Nodup
  acyclic : ∀ i, ¬TransGen a.Child i i
  founded : WellFounded fun j i => a.Child i j

-- The nodes of an arena are still there in another one. An open node may have been given children.
structure Keeps (b a : Arena) : Prop where
  size_le   : a.size ≤ b.size
  name      : ∀ i < a.size, b.name i = a.name i
  children? : ∀ i js, a.children? i = some js → b.children? i = some js

-- Copies what stands at several nodes, one after the other.
def copyEach : List Nat → Arena → List Nat × Arena
  | [],      a => ([], a)
  | i :: is, a =>
    let (j, b)  := a.copySubtree i
    let (js, c) := copyEach is b
    (j :: js, c)

-- Reading and copying go down from a node to each of its children in turn.
structure Traversed (a : Arena) (i : Nat) : Prop where
  toTree :
    a.toTree i =
      match a.children? i with
      | none    => .leaf (a.name i)
      | some is => .node (a.name i) (is.map a.toTree)
  copySubtree :
    a.copySubtree i =
      if a.children i = [] then a.push (a.name i) none
      else
        let (js, b) := copyEach (a.children i) a
        b.push (a.name i) (some js)

-- All nodes of the arena belong to the trees at some of them, each of them once.
def Whole (a : Arena) : Prop :=
  ∃ is ts js, Holds a is ts js ∧ js.Perm (List.range a.size)

variable {a b c : Arena} {i j r s : Nat} {is js ks : List Nat} {d : Text} {t : Tree}
  {ts us : List Tree} {pending : NameMap Nat} {done : List (Text × Nat)}

theorem range_append_range' (n k : Nat) : List.range n ++ List.range' n k = List.range (n + k) := by
  have h := List.range'_append_1 (s := 0) (m := n) (n := k)
  simpa [List.range_eq_range'] using h

theorem children_of_entry {e : Entry} (h : a.entries[i]? = some e) :
    a.children i = e.children.getD [] := by
  rw [children, children?_of_entry h]

namespace Holds

theorem append (h : Holds a is ts js) (h' : Holds a ks us ls) :
    Holds a (is ++ ks) (ts ++ us) (js ++ ls) := by
  induction h
  case nil             => exact h'
  case leaf he _ ih    => exact .leaf he ih
  case node he hu _ _ ih =>
    have h := Holds.node he hu ih
    rwa [← List.append_assoc] at h

theorem stands (h : Holds a is ts js) (hn : js.Nodup) : ∀ j ∈ js, Stands a j := by
  induction h
  case nil => simp
  case leaf he _ ih =>
    have ⟨_, hn⟩ := List.nodup_cons.mp hn
    exact List.forall_mem_cons.mpr ⟨⟨_, _, .leaf he .nil, List.nodup_singleton _⟩, ih hn⟩
  case node he hu _ ihu iht =>
    have ⟨hi, hn⟩ := List.nodup_cons.mp hn
    have ⟨hnu, hnt, _⟩ := List.nodup_append.mp hn
    have hi := mt (List.mem_append_left _) hi
    have hs : Stands a _ :=
      ⟨_, _, .node he hu .nil, List.nodup_cons.mpr ⟨by simpa using hi, by simpa using hnu⟩⟩
    exact List.forall_mem_cons.mpr ⟨hs, List.forall_mem_append.mpr ⟨ihu hnu, iht hnt⟩⟩

-- Every node is a root or the child of a node.
theorem perm_children (h : Holds a is ts js) : js.Perm (is ++ js.flatMap a.children) := by
  induction h
  case nil => exact .nil
  case leaf he _ ih => simpa [children_of_entry he] using ih
  case node i ks us ls is ts js d he _ _ ihu iht =>
    simp only [List.flatMap_cons, List.flatMap_append, children_of_entry he, Option.getD_some,
      List.cons_append]
    apply ((ihu.append iht).trans _).cons
    rw [← List.append_assoc ks]
    exact List.perm_append_comm_assoc _ _ _

theorem acc (h : Holds a is ts js) : ∀ i ∈ is, Acc (fun j i => a.Child i j) i := by
  induction h
  case nil => simp
  case leaf he _ ih =>
    refine List.forall_mem_cons.mpr ⟨⟨_, fun j hj => ?_⟩, ih⟩
    simp [Child, children_of_entry he] at hj
  case node he _ _ ihu iht =>
    refine List.forall_mem_cons.mpr ⟨⟨_, fun j hj => ?_⟩, iht⟩
    simp only [Child, children_of_entry he, Option.getD_some] at hj
    exact ihu j hj

end Holds

theorem lt_size_of_children? (h : a.children? i = some js) : i < a.size := by
  have ⟨_, he, _⟩ := Option.bind_eq_some_iff.mp h
  exact lt_size_of_entry he

theorem children_of_not_lt (hi : ¬i < a.size) : a.children i = [] := by
  have h : a.entries[i]? = none := Array.getElem?_eq_none (Nat.le_of_not_lt hi)
  simp [children, children?, h]

namespace Whole

theorem empty : Whole empty :=
  ⟨[], [], [], .nil, .nil⟩

theorem stands (h : Whole a) (hi : i < a.size) : Stands a i := by
  have ⟨_, _, js, hh, hp⟩ := h
  exact hh.stands (hp.nodup_iff.mpr List.nodup_range) i (hp.mem_iff.mpr (List.mem_range.mpr hi))

theorem stored (h : Whole a) (hs : Stored a b is ts js) : Whole b := by
  have ⟨_, _, _, hh, hp⟩ := h
  refine ⟨_, _, _, (hh.mono hs.extends').append hs.holds, ?_⟩
  rw [hs.size_eq, ← range_append_range']
  exact hp.append hs.numbers

theorem graft (h : Whole a) (he : a.entries[i]? = some ⟨d, none⟩) (hs : s < a.size) :
    Whole (a.graft i s) := by
  have ⟨_, _, ht, hk⟩ := h.stands hs
  have ⟨_, _, js, hh, hp⟩ := h
  have ⟨ls, hl, hr, hz⟩ := holds_graft_self he ht hk
  have hi : i ∈ js := hp.mem_iff.mpr (List.mem_range.mpr (lt_size_of_entry he))
  have ⟨_, _, h', hp', _⟩ := hh.graft (hp.nodup_iff.mpr List.nodup_range) hi he
    (fun j hj hne => entries_graft_of_ne (hh.lt_size j hj) hne) hl
  refine ⟨_, _, _, h', ?_⟩
  rw [hz, ← range_append_range']
  exact (hp'.trans List.perm_append_comm).trans (hp.append hr)

theorem ready (h : Whole a) (hr : r < a.size) (hp : ∀ k s, pending.find? k = some s → s < a.size) :
    Ready a r pending where
  root    := h.stands hr
  pending := fun k s hk => h.stands (hp k s hk)

theorem run (h : Whole a) (hr : Ready a r pending) (rn : Run r pending a done b) : Whole b := by
  induction rn
  case refl => exact h
  case step rn al ih =>
    have hb := rn.preserves_ready hr
    exact ih.graft (hb.root.entry_of_mem_openNodes al.mem) (hb.pending _ _ al.found).lt_size

theorem forest (h : Whole a) : Forest a := by
  have hf : WellFounded fun j i => a.Child i j := by
    refine ⟨fun i => ?_⟩
    by_cases hi : i < a.size
    case pos =>
      have ⟨_, _, hh, _⟩ := h.stands hi
      exact hh.acc i (List.mem_singleton_self i)
    case neg =>
      refine ⟨_, fun j hj => ?_⟩
      simp [Child, children_of_not_lt hi] at hj
  have ⟨is, _, js, hh, hp⟩ := h
  have hc := hh.perm_children
  have hn : js.Nodup := hp.nodup_iff.mpr List.nodup_range
  refine ⟨fun i j hj => ?inRange, ?unique, fun i hi => ?acyclic, hf⟩
  case inRange =>
    by_cases hi : i < a.size
    case pos =>
      have hi : i ∈ js := hp.mem_iff.mpr (List.mem_range.mpr hi)
      have hj : j ∈ js.flatMap a.children := List.mem_flatMap.mpr ⟨i, hi, hj⟩
      exact hh.lt_size j (hc.mem_iff.mpr (List.mem_append_right _ hj))
    case neg => simp [Child, children_of_not_lt hi] at hj
  case unique =>
    apply (hp.flatMap_right a.children).nodup_iff.mp
    exact (List.nodup_append.mp (hc.nodup_iff.mp hn)).right.left
  case acyclic =>
    exact hf.transGen.irrefl.irrefl i (transGen_swap.mpr hi)

end Whole

namespace Keeps

theorem refl (a : Arena) : Keeps a a where
  size_le   := Nat.le_refl _
  name      := fun _ _ => rfl
  children? := fun _ _ => id

theorem trans (h₁ : Keeps c b) (h₂ : Keeps b a) : Keeps c a where
  size_le   := Nat.le_trans h₂.size_le h₁.size_le
  name      := fun i hi => (h₁.name i (Nat.lt_of_lt_of_le hi h₂.size_le)).trans (h₂.name i hi)
  children? := fun i js hj => h₁.children? i js (h₂.children? i js hj)

theorem of_extends (h : Extends b a) : Keeps b a where
  size_le   := h.size_le
  name      := fun i hi => by simp only [Arena.name, h.kept i hi]
  children? := fun i js hj => by
    have hi : i < a.size := lt_size_of_children? hj
    simpa only [Arena.children?, h.kept i hi] using hj

-- A splice changes the children of one node only, and that node was open.
theorem graft (he : a.entries[i]? = some ⟨d, none⟩) : Keeps (a.graft i s) a where
  size_le   := size_le_size_graft a i s
  name      := fun _ => name_graft
  children? := fun j js hj => by
    have hji : j ≠ i := by
      rintro rfl
      simp [children?_of_entry he] at hj
    simpa only [Arena.children?, entries_graft_of_ne (lt_size_of_children? hj) hji] using hj

theorem of_run (h : Ready a r pending) (rn : Run r pending a done b) : Keeps b a := by
  induction rn
  case refl => exact .refl a
  case step rn al ih =>
    have hb := rn.preserves_ready h
    exact (Keeps.graft (hb.root.entry_of_mem_openNodes al.mem)).trans ih

end Keeps

namespace Operation

-- What one operation does to an arena whose nodes form trees.
theorem spec (o : Operation a b) (h : Whole a) : Whole b ∧ Keeps b a := by
  cases o
  case insertTree t =>
    have ⟨_, hs⟩ := insertTree_stored t a
    exact ⟨h.stored hs, .of_extends hs.extends'⟩
  case insertStub d ns =>
    have ⟨_, hs⟩ := insertTree_stored (.node d (ns.map .leaf)) a
    exact ⟨h.stored hs, .of_extends hs.extends'⟩
  case copySubtree i _ =>
    have ⟨_, hs⟩ := insertTree_stored (a.toTree i).pruned a
    exact ⟨h.stored hs, .of_extends hs.extends'⟩
  case expand r pending hr hp =>
    have hr := h.ready hr hp
    have ⟨_, he, _⟩ := expand_after hr
    exact ⟨h.run hr he.run, .of_run hr he.run⟩

theorem spec_all (o : ReflTransGen Operation a b) (h : Whole a) : Whole b ∧ Keeps b a := by
  induction o
  case refl => exact ⟨h, .refl a⟩
  case tail o ih =>
    have ⟨hb, hk⟩ := ih
    have ⟨hc, hk'⟩ := o.spec hb
    exact ⟨hc, hk'.trans hk⟩

end Operation

-- A copy is stored as the pruned tree is. The copies before it do not change what is copied.
theorem copyEach_eq (e : Extends b a) (h : Holds a is ts js) (hn : js.Nodup) :
    copyEach is b = insertTrees (prunedAll ts) b := by
  induction is generalizing b ts js
  case nil =>
    cases h
    rfl
  case cons i is ih =>
    have ⟨t, us, ks, ls, ht, hj, hi, hr⟩ := h.cons_inv
    subst ht hj
    have ⟨hk, hl, _⟩ := List.nodup_append.mp hn
    have ht : b.toTree i = t := (hi.mono e).toTree_eq_singleton hk
    have ⟨_, hs⟩ := insertTree_stored t.pruned b
    simp only [copyEach, copySubtree, ht, prunedAll, insertTrees, ih (hs.extends'.trans e) hr hl]

theorem Stands.traversed (h : Stands a i) : Traversed a i := by
  have ⟨t, js, hh, hn⟩ := h
  have ht := hh.toTree_eq_singleton hn
  cases hh
  case leaf js d he _ =>
    have hc : a.children? i = none := children?_of_entry he
    have hd : a.name i = d := name_of_entry he
    exact ⟨by rw [ht, hc, hd], by simp [copySubtree, ht, children, hc, hd, pruned, insertTree]⟩
  case node ks us ls js d hu he _ =>
    have hc : a.children? i = some ks := children?_of_entry he
    have hd : a.name i = d := name_of_entry he
    have hn : ls.Nodup := (List.nodup_append.mp (List.nodup_cons.mp hn).right).left
    have hks : ks = [] ↔ us = [] := by
      rw [← List.length_eq_zero_iff, ← hu.length_eq, List.length_eq_zero_iff]
    refine ⟨by simp only [ht, hc, hd, hu.toTree_eq hn], ?_⟩
    simp only [copySubtree, ht, children, hc, hd, Option.getD_some, hks]
    split
    case isTrue h  => simp [h, pruned, insertTree]
    case isFalse h => simp [pruned_node h, insertTree, copyEach_eq (.refl a) hu hn]

-- Whatever operations are made on an empty arena, its nodes form trees. Reading and copying come to
-- an end at every node, and further operations keep all nodes with their names and their children.
theorem forest_of_operations (h : ReflTransGen Operation empty a) :
    Forest a ∧ (∀ i < a.size, Traversed a i) ∧
      ∀ b, ReflTransGen Operation a b → Forest b ∧ Keeps b a := by
  have ⟨h, _⟩ := Operation.spec_all h .empty
  refine ⟨h.forest, fun i hi => (h.stands hi).traversed, fun b o => ?_⟩
  have ⟨hb, hk⟩ := Operation.spec_all o h
  exact ⟨hb.forest, hk⟩

-- A leaf that is expanded by the root it hangs below.
theorem forest_of_operations_loop :
    let a := (insertTree (.node ['a'] [.leaf ['b']]) empty).2
    let b := (a.expand 1 (.ofList [(['b'], 1)])).arena
    ReflTransGen Operation empty a ∧ ReflTransGen Operation a b ∧ 0 < a.size ∧
      b.children? 0 = some [2] ∧ Forest b ∧ Keeps b a ∧ Traversed a 0 := by
  intro a b
  have hp : ∀ k s, (NameMap.ofList [(['b'], 1)]).find? k = some s → s < a.size := by
    intro k s hk
    cases List.mem_singleton.mp (NameMap.mem_of_find?_ofList hk)
    decide
  have ha : ReflTransGen Operation empty a := .single (.insertTree _)
  have hb : ReflTransGen Operation a b := .single (.expand (by decide) hp)
  have ⟨_, ht, h⟩ := forest_of_operations ha
  have ⟨hf, hk⟩ := h b hb
  exact ⟨ha, hb, by decide, by decide, hf, hk, ht 0 (by decide)⟩

end DocPress.Arena
