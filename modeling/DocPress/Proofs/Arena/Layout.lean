import Mathlib.Data.List.Nodup
import Mathlib.Data.List.Perm.Subperm
import DocPress.Arena.Basic
import DocPress.Proofs.Tree.Nodes

-- How trees lie in an arena. The main relation says which trees stand at which nodes and which
-- nodes they take up. It is kept by everything that leaves these nodes alone, and when an open
-- node is given children it changes by a graft.

namespace DocPress.Arena

open Tree

-- The trees stand at the nodes of the first list; the second list holds the numbers of all their
-- nodes in pre-order.
inductive Holds (a : Arena) : List Nat → List Tree → List Nat → Prop
  | nil : Holds a [] [] []
  | leaf :
    a.entries[i]? = some ⟨d, none⟩ → Holds a is ts js → Holds a (i :: is) (.leaf d :: ts) (i :: js)
  | node :
    a.entries[i]? = some ⟨d, some ks⟩ → Holds a ks us ls → Holds a is ts js →
    Holds a (i :: is) (.node d us :: ts) (i :: (ls ++ js))

-- Nothing that an arena holds is lost or changed in the other one.
structure Extends (b a : Arena) : Prop where
  size_le : a.size ≤ b.size
  kept    : ∀ i < a.size, b.entries[i]? = a.entries[i]?

-- A finite tree whose nodes are all different stands at the node.
def Stands (a : Arena) (i : Nat) : Prop :=
  ∃ t js, Holds a [i] [t] js ∧ js.Nodup

def isOpen (a : Arena) (i : Nat) : Bool :=
  (a.children? i).isNone

variable {a b : Arena} {i j : Nat} {is js ls : List Nat} {d : Text} {t u : Tree} {ts us : List Tree}

theorem lt_size_of_entry {e : Entry} (h : a.entries[i]? = some e) : i < a.size :=
  (Array.getElem?_eq_some_iff.mp h).choose

theorem name_of_entry {e : Entry} (h : a.entries[i]? = some e) : a.name i = e.name := by
  simp [name, h]

theorem children?_of_entry {e : Entry} (h : a.entries[i]? = some e) :
    a.children? i = e.children := by
  simp [children?, h]

theorem isOpen_of_entry {e : Entry} (h : a.entries[i]? = some e) :
    a.isOpen i = e.children.isNone := by
  simp [isOpen, children?_of_entry h]

namespace Holds

theorem lt_size (h : Holds a is ts js) : ∀ j ∈ js, j < a.size := by
  induction h
  case nil => simp
  case leaf he _ ih => simpa using ⟨lt_size_of_entry he, ih⟩
  case node he _ _ ihu iht =>
    simp only [List.mem_cons, List.mem_append]
    rintro j (rfl | hj | hj)
    · exact lt_size_of_entry he
    · exact ihu j hj
    · exact iht j hj

theorem map_data (h : Holds a is ts js) : ts.map data = is.map a.name := by
  induction h
  case nil => rfl
  case leaf he _ ih => simp [data, name_of_entry he, ih]
  case node he _ _ _ ih => simp [data, name_of_entry he, ih]

theorem sublist (h : Holds a is ts js) : is.Sublist js := by
  induction h
  case nil => exact .slnil
  case leaf ih => exact ih.cons_cons _
  case node ih => exact (ih.trans (List.sublist_append_right _ _)).cons_cons _

theorem length_eq (h : Holds a is ts js) : ts.length = is.length := by
  simpa using congrArg List.length h.map_data

-- Everything that is said about the nodes of the trees depends on these nodes only.
theorem congr (h : Holds a is ts js) (hk : ∀ j ∈ js, b.entries[j]? = a.entries[j]?) :
    Holds b is ts js := by
  induction h
  case nil => exact .nil
  case leaf he _ ih =>
    simp only [List.mem_cons, forall_eq_or_imp] at hk
    exact .leaf (hk.left ▸ he) (ih hk.right)
  case node he _ _ ihu iht =>
    simp only [List.mem_cons, forall_eq_or_imp, List.forall_mem_append] at hk
    exact .node (hk.left ▸ he) (ihu hk.right.left) (iht hk.right.right)

theorem mono (h : Holds a is ts js) (e : Extends b a) : Holds b is ts js :=
  h.congr fun j hj => e.kept j (h.lt_size j hj)

theorem cons : Holds a [i] [t] ls → Holds a is ts js → Holds a (i :: is) (t :: ts) (ls ++ js)
  | .leaf he .nil,    h => .leaf he h
  | .node he hu .nil, h => by simpa using .node he hu h

theorem cons_inv : Holds a (i :: is) ts js →
    ∃ t us ks ls, ts = t :: us ∧ js = ks ++ ls ∧ Holds a [i] [t] ks ∧ Holds a is us ls
  | .leaf he h    => ⟨_, _, _, _, rfl, rfl, .leaf he .nil, h⟩
  | .node he hu h => ⟨_, _, _, _, rfl, by simp, .node he hu .nil, h⟩

theorem singleton : Holds a [i] ts js → ∃ t, ts = [t]
  | .leaf _ .nil | .node _ _ .nil => ⟨_, rfl⟩

theorem of_mem (h : Holds a is ts js) (hi : i ∈ is) :
    ∃ t ks, Holds a [i] [t] ks ∧ ks.Sublist js := by
  induction is generalizing ts js
  case nil => contradiction
  case cons i' is ih =>
    have ⟨t, us, ks, ls, _, hj, ht, hr⟩ := h.cons_inv
    subst hj
    cases hi
    case head => exact ⟨t, ks, ht, List.sublist_append_left _ _⟩
    case tail hi =>
      have ⟨t, ks', ht, hs⟩ := ih hr hi
      exact ⟨t, ks', ht, hs.trans (List.sublist_append_right _ _)⟩

-- Trees that stand side by side have no nodes in common.
theorem disjoint_of_mem (h : Holds a is ts js) (hn : js.Nodup) (hi : i ∈ is) (hj : j ∈ is)
    (hne : i ≠ j) :
    ∃ t u ks ls, Holds a [i] [t] ks ∧ Holds a [j] [u] ls ∧ ks.Nodup ∧ ls.Nodup ∧
      ks.Disjoint ls := by
  induction is generalizing ts js
  case nil => contradiction
  case cons i' is ih =>
    have ⟨t, us, ks, ls, _, hjs, ht, hr⟩ := h.cons_inv
    subst hjs
    have ⟨hnk, hnl, hd⟩ := List.nodup_append'.mp hn
    cases hi <;> cases hj
    case head.head => contradiction
    case head.tail hj =>
      have ⟨u, ls', hu, hs⟩ := hr.of_mem hj
      exact ⟨_, _, _, _, ht, hu, hnk, hnl.sublist hs, fun _ hk hl => hd hk (hs.subset hl)⟩
    case tail.head hi =>
      have ⟨u, ls', hu, hs⟩ := hr.of_mem hi
      exact ⟨_, _, _, _, hu, ht, hnl.sublist hs, hnk, fun _ hl hk => hd hk (hs.subset hl)⟩
    case tail.tail hi hj => exact ih hr hnl hi hj

theorem children_eq_nil_iff : Holds a [i] [t] js → (a.children i = [] ↔ t.children = [])
  | .leaf he .nil    => by simp [Arena.children, children?_of_entry he, Tree.children]
  | .node he hu .nil => by
    have hl := hu.length_eq
    simp only [Arena.children, children?_of_entry he, Option.getD_some, Tree.children]
    rw [← List.length_eq_zero_iff, ← hl, List.length_eq_zero_iff]

theorem treeUpTo_eq (h : Holds a is ts js) {n : Nat} (hn : js.length ≤ n) :
    is.map (a.treeUpTo n) = ts := by
  induction h generalizing n
  case nil => rfl
  case leaf he _ ih =>
    simp only [List.length_cons] at hn
    cases n
    case zero => omega
    case succ n =>
      rw [List.map_cons, ih (by omega)]
      simp [treeUpTo, children?_of_entry he, name_of_entry he]
  case node he _ _ ihu iht =>
    simp only [List.length_cons, List.length_append] at hn
    cases n
    case zero => omega
    case succ n =>
      rw [List.map_cons, iht (by omega)]
      simp [treeUpTo, children?_of_entry he, name_of_entry he, ihu (n := n) (by omega)]

theorem openFrom_eq (h : Holds a is ts js) (n : Nat) (rest : List Nat) :
    a.openFrom (js.length + n) (is ++ rest) = js.filter a.isOpen ++ a.openFrom n rest := by
  induction h generalizing n rest
  case nil => simp
  case leaf he _ ih =>
    simp [openFrom, Nat.succ_add, children?_of_entry he, isOpen_of_entry he, ih]
  case node he _ _ ihu iht =>
    simp [openFrom, Nat.succ_add, Nat.add_assoc, children?_of_entry he, isOpen_of_entry he, ihu,
      iht]

theorem map_name_filter_isOpen (h : Holds a is ts js) :
    (js.filter a.isOpen).map a.name = leavesAll ts := by
  induction h
  case nil => rfl
  case leaf he _ ih =>
    simp [isOpen_of_entry he, name_of_entry he, leavesAll, leaves, ih]
  case node he _ _ ihu iht =>
    simp [isOpen_of_entry he, leavesAll, leaves, ihu, iht]

theorem length_le_size (h : Holds a is ts js) (hn : js.Nodup) : js.length ≤ a.size := by
  have hs : js ⊆ List.range a.size := fun j hj => List.mem_range.mpr (h.lt_size j hj)
  simpa using (hn.subperm hs).length_le

theorem toTree_eq (h : Holds a is ts js) (hn : js.Nodup) : is.map a.toTree = ts :=
  h.treeUpTo_eq (h.length_le_size hn)

theorem toTree_eq_singleton (h : Holds a [i] [t] js) (hn : js.Nodup) : a.toTree i = t := by
  simpa using h.toTree_eq hn

theorem openNodes_eq (h : Holds a [i] [t] js) (hn : js.Nodup) :
    a.openNodes i = js.filter a.isOpen := by
  have hl := h.length_le_size hn
  have ho := h.openFrom_eq (a.size - js.length) []
  rw [Nat.add_sub_cancel' hl] at ho
  cases hs : a.size - js.length <;> simpa [openNodes, hs, openFrom] using ho

-- An open node among the nodes of the trees becomes the place of another tree, and all other nodes
-- stay as they are.
theorem graft (h : Holds a is ts js) (hn : js.Nodup) (hi : i ∈ js)
    (he : a.entries[i]? = some ⟨d, none⟩) (hk : ∀ j ∈ js, j ≠ i → b.entries[j]? = a.entries[j]?)
    (hu : Holds b [i] [u] (i :: ls)) :
    ∃ ts' js', Holds b is ts' js' ∧ js'.Perm (ls ++ js) ∧ Graft d u ts ts' := by
  induction h
  case nil => simp at hi
  case leaf i' is ts js d' he' h ih =>
    have ⟨hn', hn⟩ := List.nodup_cons.mp hn
    by_cases hii : i' = i
    case pos =>
      subst hii
      cases he'.symm.trans he
      have hr := h.congr fun j hj => hk j (List.mem_cons_of_mem _ hj) (by rintro rfl; exact hn' hj)
      refine ⟨_, _, hu.cons hr, ?_, .here⟩
      simpa using List.perm_middle.symm
    case neg =>
      have hi := (List.mem_cons.mp hi).resolve_left (Ne.symm hii)
      have ⟨ts', js', h', hp, g⟩ := ih hn hi fun j hj => hk j (List.mem_cons_of_mem _ hj)
      refine ⟨_, _, .leaf ((hk i' (by simp) hii).trans he') h', ?_, .next g⟩
      exact (hp.cons i').trans List.perm_middle.symm
  case node i' ks us ls' is ts js d' he' hb h ihb ih =>
    have ⟨hn', hn⟩ := List.nodup_cons.mp hn
    have ⟨hnb, hnr, hd⟩ := List.nodup_append.mp hn
    have hii : i' ≠ i := by rintro rfl; cases he'.symm.trans he
    have he' := (hk i' (by simp) hii).trans he'
    have hkb : ∀ j ∈ ls', j ≠ i → _ := fun j hj => hk j (by simp [hj])
    have hkr : ∀ j ∈ js, j ≠ i → _ := fun j hj => hk j (by simp [hj])
    cases List.mem_append.mp ((List.mem_cons.mp hi).resolve_left hii.symm)
    case inl hi =>
      have ⟨us', ls'', h', hp, g⟩ := ihb hnb hi hkb
      have hr := h.congr fun j hj => hkr j hj (fun h => hd i hi j hj h.symm)
      refine ⟨_, _, .node he' h' hr, ?_, .down g⟩
      apply List.Perm.trans (.cons _ (hp.append_right js))
      simpa using List.perm_middle.symm
    case inr hi =>
      have ⟨ts', js', h', hp, g⟩ := ih hnr hi hkr
      have hb := hb.congr fun j hj => hkb j hj (hd j hj i hi)
      refine ⟨_, _, .node he' hb h', ?_, .next g⟩
      apply List.Perm.trans (.cons _ (.append_left ls' hp))
      apply List.Perm.trans (.cons _ (List.perm_append_comm_assoc _ _ _))
      exact List.perm_middle.symm

end Holds
end DocPress.Arena
