import Mathlib.Data.List.Pairwise
import DocPress.Proofs.Arena.Forest

-- In an arena whose nodes form trees, a tree stands at every node. Its nodes are those that can be
-- reached from there.

namespace DocPress.Arena

open Tree Relation

-- The trees at two nodes have no nodes in common.
def Apart (a : Arena) (i j : Nat) : Prop :=
  ∀ k, ReflTransGen a.Child i k → ¬ReflTransGen a.Child j k

variable {a b : Arena} {i j k p r : Nat} {is js ks : List Nat} {t : Tree} {ts : List Tree}

namespace Holds

theorem reaches (h : Holds a is ts js) : ∀ j ∈ js, ∃ i ∈ is, ReflTransGen a.Child i j := by
  induction h
  case nil => exact List.forall_mem_nil _
  case leaf ih =>
    refine List.forall_mem_cons.mpr ⟨⟨_, List.mem_cons_self, .refl⟩, fun j hj => ?_⟩
    have ⟨i, hi, hr⟩ := ih j hj
    exact ⟨i, List.mem_cons_of_mem _ hi, hr⟩
  case node i ks us ls is ts js d he _ _ ihu iht =>
    refine List.forall_mem_cons.mpr ⟨⟨_, List.mem_cons_self, .refl⟩, ?_⟩
    refine List.forall_mem_append.mpr ⟨fun j hj => ?_, fun j hj => ?_⟩
    case refine_1 =>
      have ⟨k, hk, hr⟩ := ihu j hj
      have hc : a.Child i k := by rwa [Child, children_of_entry he]
      exact ⟨_, List.mem_cons_self, hr.head hc⟩
    case refine_2 =>
      have ⟨i, hi, hr⟩ := iht j hj
      exact ⟨i, List.mem_cons_of_mem _ hi, hr⟩

-- Every node that can be reached from the nodes at which trees stand is one of their nodes.
theorem mem_of_reaches (h : Holds a is ts js) (hr : ReflTransGen a.Child r i) (hm : r ∈ js) :
    i ∈ js := by
  induction hr
  case refl => exact hm
  case tail hc ih =>
    exact h.perm_children.mem_iff.mpr (List.mem_append_right _ (List.mem_flatMap.mpr ⟨_, ih, hc⟩))

theorem mem_iff_reaches (h : Holds a [i] [t] js) : j ∈ js ↔ ReflTransGen a.Child i j := by
  constructor
  case mpr => exact fun hr => h.mem_of_reaches hr (h.sublist.subset (List.mem_singleton_self i))
  case mp =>
    intro hj
    have ⟨i', hi, hr⟩ := h.reaches j hj
    rwa [List.mem_singleton.mp hi] at hr

end Holds

theorem Stands.lt_size_of_reaches (h : Stands a i) (hr : ReflTransGen a.Child i j) :
    j < a.size := by
  have ⟨_, _, hh, _⟩ := h
  exact hh.lt_size j (hh.mem_iff_reaches.mpr hr)

-- The nodes of a tree that is left alone are read as before.
theorem Stands.toTree_congr (h : Stands a i)
    (hk : ∀ j, ReflTransGen a.Child i j → b.entries[j]? = a.entries[j]?) :
    b.toTree i = a.toTree i := by
  have ⟨_, _, hh, hn⟩ := h
  have hb := hh.congr fun j hj => hk j (hh.mem_iff_reaches.mp hj)
  rw [hb.toTree_eq_singleton hn, hh.toTree_eq_singleton hn]

theorem Stands.mem_openNodes_iff (h : Stands a r) :
    i ∈ a.openNodes r ↔ ReflTransGen a.Child r i ∧ a.children? i = none := by
  have ⟨_, _, hh, _, ho⟩ := h.openNodes_spec
  rw [ho, hh.mem_iff_reaches, isOpen, Option.isNone_iff_eq_none]

-- Trees that have no nodes in common stand side by side.
theorem exists_holds_of_stands (hs : ∀ i ∈ is, Stands a i) (hd : is.Pairwise a.Apart) :
    ∃ ts js, Holds a is ts js ∧ js.Nodup := by
  induction is
  case nil => exact ⟨[], [], .nil, List.nodup_nil⟩
  case cons i is ih =>
    have ⟨⟨_, ks, hi, hk⟩, hs⟩ := List.forall_mem_cons.mp hs
    have ⟨hd, hds⟩ := List.pairwise_cons.mp hd
    have ⟨_, js, hj, hn⟩ := ih hs hds
    refine ⟨_, _, hi.cons hj, List.nodup_append'.mpr ⟨hk, hn, fun x hx hx' => ?_⟩⟩
    have ⟨j, hjm, hr⟩ := hj.reaches x hx'
    exact hd j hjm x (hi.mem_iff_reaches.mp hx) hr

namespace Forest

theorem nodup_children (h : Forest a) (hi : i < a.size) : (a.children i).Nodup :=
  (List.nodup_flatMap.mp h.unique).left i (List.mem_range.mpr hi)

theorem lt_size_of_child (hc : a.Child i k) : i < a.size := by
  by_contra hi
  simp [Child, children_of_not_lt hi] at hc

theorem parent_unique (h : Forest a) (hi : a.Child i k) (hj : a.Child j k) : i = j := by
  by_contra hij
  have : Std.Symm (Function.onFun List.Disjoint a.children) := ⟨fun _ _ => List.disjoint_symm⟩
  have hd := (List.nodup_flatMap.mp h.unique).right.forall
    (List.mem_range.mpr (lt_size_of_child hi)) (List.mem_range.mpr (lt_size_of_child hj)) hij
  exact hd hi hj

-- One of two nodes above the same node is above the other one.
theorem reaches_or_reaches (h : Forest a) (hi : ReflTransGen a.Child i k)
    (hj : ReflTransGen a.Child j k) : ReflTransGen a.Child i j ∨ ReflTransGen a.Child j i := by
  have hu : Relator.RightUnique (Function.swap a.Child) := fun _ _ _ => h.parent_unique
  have ht := ReflTransGen.total_of_right_unique hu
    (reflTransGen_swap.mpr hi) (reflTransGen_swap.mpr hj)
  simpa only [reflTransGen_swap] using ht.symm

-- A node that is above its own sibling would be above itself.
theorem not_reaches_sibling (h : Forest a) (hi : a.Child p i) (hj : a.Child p j) (hij : i ≠ j) :
    ¬ReflTransGen a.Child i j := by
  intro hr
  have ⟨q, hq, hc⟩ := (ReflTransGen.cases_tail hr).resolve_left (Ne.symm hij)
  exact h.acyclic p (TransGen.head' hi (h.parent_unique hc hj ▸ hq))

theorem apart (h : Forest a) (hi : a.Child p i) (hj : a.Child p j) (hij : i ≠ j) :
    a.Apart i j := by
  intro k hk hk'
  cases h.reaches_or_reaches hk hk'
  case inl hr => exact h.not_reaches_sibling hi hj hij hr
  case inr hr => exact h.not_reaches_sibling hj hi hij.symm hr

-- The trees at the children of a node have no nodes in common and do not come back to it.
theorem stands (h : Forest a) (hi : i < a.size) : Stands a i := by
  induction i using h.founded.induction
  case _ i ih =>
    have he : a.entries[i]? = some a.entries[i] := Array.getElem?_eq_getElem hi
    cases hc : a.entries[i].children
    case none =>
      have he : a.entries[i]? = some ⟨a.entries[i].name, none⟩ := by rw [he, ← hc]
      exact ⟨_, _, .leaf he .nil, List.nodup_singleton i⟩
    case some ks =>
      have he : a.entries[i]? = some ⟨a.entries[i].name, some ks⟩ := by rw [he, ← hc]
      have hks : a.children i = ks := children_of_entry he
      have hs : ∀ k ∈ a.children i, Stands a k := fun k hk => ih k hk (h.inRange i k hk)
      have hd := (h.nodup_children hi).pairwise_of_forall_ne fun j hj k hk => h.apart hj hk
      have ⟨us, ls, hu, hl⟩ := exists_holds_of_stands hs hd
      refine ⟨_, _, .node he (hks ▸ hu) .nil, ?_⟩
      rw [List.append_nil]
      refine List.nodup_cons.mpr ⟨fun hm => ?_, hl⟩
      have ⟨k, hk, hr⟩ := hu.reaches i hm
      exact h.acyclic i (TransGen.head' hk hr)

end Forest
end DocPress.Arena
