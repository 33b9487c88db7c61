import Mathlib.Data.List.Perm.Basic
import Mathlib.Logic.Relation
import DocPress.Tree.Basic

-- What the nodes of trees carry, read in pre-order, and what becomes of it when a leaf is replaced
-- by a tree. Statements are about forests, because the children of a node are one.

namespace DocPress.Tree

variable {d n : Text} {e : Text × List Text} {t u : Tree} {ts ts' us : List Tree}

-- A forest is empty, or it begins with a leaf, or with a node that has a forest below it.
theorem forestInduction {P : List Tree → Prop} (nil : P []) (leaf : ∀ d ts, P ts → P (leaf d :: ts))
    (node : ∀ d us ts, P us → P ts → P (node d us :: ts)) : ∀ ts, P ts
  | []               => nil
  | .leaf d :: ts    => leaf d ts (forestInduction nil leaf node ts)
  | .node d us :: ts =>
    node d us ts (forestInduction nil leaf node us) (forestInduction nil leaf node ts)

-- Where leaves and nodes need not be told apart, both have a forest below them.
theorem childrenInduction {P : List Tree → Prop} (nil : P [])
    (cons : ∀ t ts, P t.children → P ts → P (t :: ts)) : ∀ ts, P ts :=
  forestInduction nil (fun d ts => cons (leaf d) ts nil) (fun d us ts => cons (node d us) ts)

mutual

-- The data of all nodes.
def names : Tree → List Text
  | leaf d    => [d]
  | node d ts => d :: namesAll ts

def namesAll : List Tree → List Text
  | []      => []
  | t :: ts => t.names ++ namesAll ts

end

-- The number of nodes.
def size (t : Tree) : Nat :=
  t.names.length

mutual

-- The data of the leaves.
def leaves : Tree → List Text
  | leaf d    => [d]
  | node _ ts => leavesAll ts

def leavesAll : List Tree → List Text
  | []      => []
  | t :: ts => t.leaves ++ leavesAll ts

end

-- The entry of a node: its data with the data of its children, if it has any.
def entry (d : Text) (us : List Tree) : List (Text × List Text) :=
  if us.isEmpty then [] else [(d, us.map data)]

mutual

-- The entries of all nodes.
def expanded : Tree → List (Text × List Text)
  | leaf _    => []
  | node d ts => entry d ts ++ expandedAll ts

def expandedAll : List Tree → List (Text × List Text)
  | []      => []
  | t :: ts => t.expanded ++ expandedAll ts

end

theorem entry_eq_of_ne_nil (h : us ≠ []) : entry d us = [(d, us.map data)] := by
  simp [entry, h]

theorem fst_of_mem_entry (h : e ∈ entry d us) : e.1 = d := by
  rw [entry] at h
  split at h <;> simp_all

@[simp]
theorem expandedAll_nil : expandedAll [] = [] := rfl

@[simp]
theorem expandedAll_leaf_cons : expandedAll (leaf d :: ts) = expandedAll ts := rfl

@[simp]
theorem expandedAll_node_cons :
    expandedAll (node d us :: ts) = entry d us ++ (expandedAll us ++ expandedAll ts) := by
  simp [expandedAll, expanded]

theorem expandedAll_eq_flatMap (ts : List Tree) : expandedAll ts = ts.flatMap expanded := by
  induction ts <;> simp_all [expandedAll]

theorem mem_expandedAll_of_mem (ht : t ∈ ts) (he : e ∈ t.expanded) : e ∈ expandedAll ts := by
  rw [expandedAll_eq_flatMap]
  exact List.mem_flatMap.mpr ⟨t, ht, he⟩

theorem expandedAll_singleton (t : Tree) : expandedAll [t] = t.expanded :=
  List.append_nil _

theorem expandedAll_perm (h : ts.Perm us) : (expandedAll ts).Perm (expandedAll us) := by
  simpa only [expandedAll_eq_flatMap] using h.flatMap_right expanded

theorem names_eq (t : Tree) : t.names = t.data :: namesAll t.children := by
  cases t <;> rfl

theorem namesAll_cons (t : Tree) (ts : List Tree) :
    namesAll (t :: ts) = t.data :: (namesAll t.children ++ namesAll ts) := by
  rw [namesAll, names_eq, List.cons_append]

theorem namesAll_eq_flatMap (ts : List Tree) : namesAll ts = ts.flatMap names := by
  induction ts <;> simp_all [namesAll]

theorem mem_namesAll_of_mem (ht : t ∈ ts) (hn : n ∈ t.names) : n ∈ namesAll ts := by
  induction ts
  case nil => contradiction
  case cons u us ih =>
    cases ht
    case head    => exact List.mem_append_left _ hn
    case tail ht => exact List.mem_append_right _ (ih ht)

theorem flatMap_snd_entry (d : Text) (us : List Tree) :
    (entry d us).flatMap (·.2) = us.map data := by
  cases us <;> simp [entry]

-- Every node is a root, or it is listed once in the entry of the node above it.
theorem count_namesAll (n : Text) (ts : List Tree) :
    (namesAll ts).count n = (ts.map data).count n + ((expandedAll ts).flatMap (·.2)).count n := by
  induction ts using forestInduction
  case nil => rfl
  case leaf d ts ih =>
    simp only [namesAll, names, List.singleton_append, List.map_cons, data, List.count_cons,
      expandedAll_leaf_cons, ih]
    omega
  case node d us ts hu ht =>
    simp only [namesAll, names, List.cons_append, List.map_cons, data, List.count_cons,
      List.count_append, expandedAll_node_cons, List.flatMap_append, flatMap_snd_entry, hu, ht]
    omega

-- What hangs below another node is listed in the entry of that node.
theorem mem_namesAll_iff : n ∈ namesAll ts ↔ n ∈ ts.map data ∨ ∃ e ∈ expandedAll ts, n ∈ e.2 := by
  rw [← List.mem_flatMap, ← List.count_pos_iff, count_namesAll, Nat.add_pos_iff_pos_or_pos,
    List.count_pos_iff, List.count_pos_iff]

theorem mem_names_of_mem_expanded (he : e ∈ t.expanded) (hn : n ∈ e.2) : n ∈ t.names := by
  rw [← expandedAll_singleton] at he
  have h := mem_namesAll_iff.mpr (.inr ⟨e, he, hn⟩)
  simpa [namesAll] using h

theorem fst_mem_namesAll (h : e ∈ expandedAll ts) : e.1 ∈ namesAll ts := by
  induction ts using forestInduction
  case nil => contradiction
  case leaf d ts ih => exact List.mem_append_right _ (ih h)
  case node d us ts hu ht =>
    simp only [expandedAll_node_cons, List.mem_append] at h
    simp only [namesAll, names, List.cons_append, List.mem_cons, List.mem_append]
    exact h.imp fst_of_mem_entry (Or.imp hu ht)

theorem data_pruned (t : Tree) : t.pruned.data = t.data := by
  cases t
  case leaf      => rfl
  case node d ts => cases ts <;> rfl

theorem prunedAll_eq_map (ts : List Tree) : prunedAll ts = ts.map pruned := by
  induction ts <;> simp_all [prunedAll]

theorem pruned_node (h : us ≠ []) : (node d us).pruned = node d (prunedAll us) := by
  cases us
  case nil  => contradiction
  case cons => rfl

theorem pruned_eq_ite (t : Tree) :
    t.pruned = if t.children = [] then leaf t.data else node t.data (prunedAll t.children) := by
  cases t
  case leaf      => rfl
  case node d ts => cases ts <;> rfl

theorem prunedAll_ne_nil (h : us ≠ []) : prunedAll us ≠ [] := by
  simpa [prunedAll_eq_map] using h

theorem map_data_prunedAll (us : List Tree) : (prunedAll us).map data = us.map data := by
  simp [prunedAll_eq_map, Function.comp_def, data_pruned]

theorem children_pruned (t : Tree) : t.pruned.children = prunedAll t.children := by
  cases t
  case leaf      => rfl
  case node d ts => cases ts <;> rfl

theorem namesAll_prunedAll (ts : List Tree) : namesAll (prunedAll ts) = namesAll ts := by
  induction ts using childrenInduction
  case nil => rfl
  case cons t ts ihc ihs =>
    rw [prunedAll, namesAll_cons, namesAll_cons, data_pruned, children_pruned, ihc, ihs]

theorem size_pruned (t : Tree) : t.pruned.size = t.size := by
  simpa [prunedAll, namesAll, size] using congrArg List.length (namesAll_prunedAll [t])

theorem entry_prunedAll (d : Text) (us : List Tree) : entry d (prunedAll us) = entry d us := by
  rw [entry, map_data_prunedAll]
  simp [entry, prunedAll_eq_map]

theorem expandedAll_prunedAll (ts : List Tree) : expandedAll (prunedAll ts) = expandedAll ts := by
  induction ts using forestInduction
  case nil          => rfl
  case leaf d ts ih => simp [prunedAll, pruned, ih]
  case node d us ts hu ht =>
    by_cases h : us = []
    case pos => simp [h, prunedAll, pruned, ht, entry]
    case neg => simp [prunedAll, pruned_node h, hu, ht, entry_prunedAll]

theorem expanded_pruned (t : Tree) : t.pruned.expanded = t.expanded := by
  simpa [prunedAll, expandedAll] using expandedAll_prunedAll [t]

theorem prunedAll_prunedAll (ts : List Tree) : prunedAll (prunedAll ts) = prunedAll ts := by
  induction ts using forestInduction
  case nil          => rfl
  case leaf d ts ih => simp [prunedAll, pruned, ih]
  case node d us ts hu ht =>
    by_cases h : us = []
    case pos => simp [h, prunedAll, pruned, ht]
    case neg => simp [prunedAll, pruned_node h, pruned_node (prunedAll_ne_nil h), hu, ht]

theorem pruned_pruned (t : Tree) : t.pruned.pruned = t.pruned := by
  simpa [prunedAll] using prunedAll_prunedAll [t]

-- Every node of a pruned forest is a leaf or has an entry of its own.
theorem count_namesAll_of_pruned (hp : prunedAll ts = ts) (n : Text) :
    (namesAll ts).count n = ((expandedAll ts).map (·.1)).count n + (leavesAll ts).count n := by
  induction ts using forestInduction
  case nil => rfl
  case leaf d ts ih =>
    simp only [prunedAll, pruned, List.cons.injEq, true_and] at hp
    simp only [namesAll, names, leavesAll, leaves, List.singleton_append, List.count_cons,
      expandedAll_leaf_cons, ih hp]
    omega
  case node d us ts hu ht =>
    have hn : us ≠ [] := fun hn => by simp [hn, prunedAll, pruned] at hp
    simp only [prunedAll, pruned_node hn, List.cons.injEq, node.injEq, true_and] at hp
    simp only [namesAll, names, leavesAll, leaves, List.cons_append, List.nil_append,
      List.map_cons, List.map_append, List.count_cons, List.count_append, expandedAll_node_cons,
      entry_eq_of_ne_nil hn, hu hp.left, ht hp.right]
    omega

theorem mem_namesAll_of_pruned (hp : prunedAll ts = ts) (hn : n ∈ namesAll ts) :
    n ∈ (expandedAll ts).map (·.1) ∨ n ∈ leavesAll ts := by
  rwa [← List.count_pos_iff, count_namesAll_of_pruned hp, Nat.add_pos_iff_pos_or_pos,
    List.count_pos_iff, List.count_pos_iff] at hn

-- The first name has an entry that lists the second one.
def Lists (entries : List (Text × List Text)) (n k : Text) : Prop :=
  ∃ e ∈ entries, e.1 = n ∧ k ∈ e.2

-- Going down from a root of the forest, every name is listed by the one before.
theorem reaches_of_mem_expandedAll {entries : List (Text × List Text)}
    (hs : expandedAll ts ⊆ entries) (he : e ∈ expandedAll ts) :
    ∃ t ∈ ts, Relation.ReflTransGen (Lists entries) t.data e.1 := by
  induction ts using forestInduction
  case nil => contradiction
  case leaf d ts ih =>
    have ⟨t, ht, h⟩ := ih hs he
    exact ⟨t, List.mem_cons_of_mem _ ht, h⟩
  case node d us ts hu ht =>
    simp only [expandedAll_node_cons, List.append_subset] at hs
    have ⟨hse, hsu, hst⟩ := hs
    simp only [expandedAll_node_cons, List.mem_append] at he
    cases he
    case inl he => exact ⟨_, List.mem_cons_self, fst_of_mem_entry he ▸ .refl⟩
    case inr he =>
      cases he
      case inl he =>
        have ⟨u, hu, h⟩ := hu hsu he
        have hl : Lists entries d u.data := by
          rw [entry_eq_of_ne_nil (List.ne_nil_of_mem hu)] at hse
          exact ⟨_, hse List.mem_cons_self, rfl, List.mem_map_of_mem hu⟩
        exact ⟨_, List.mem_cons_self, h.head hl⟩
      case inr he =>
        have ⟨t, ht, h⟩ := ht hst he
        exact ⟨t, List.mem_cons_of_mem _ ht, h⟩

theorem reaches_of_mem_expanded {entries : List (Text × List Text)} (hs : t.expanded ⊆ entries)
    (he : e ∈ t.expanded) : Relation.ReflTransGen (Lists entries) t.data e.1 := by
  rw [← expandedAll_singleton] at hs he
  have ⟨u, hu, h⟩ := reaches_of_mem_expandedAll hs he
  rwa [List.mem_singleton.mp hu] at h

-- A forest in which one leaf is replaced by a tree.
inductive Graft (d : Text) (u : Tree) : List Tree → List Tree → Prop
  | here : Graft d u (leaf d :: vs) (u :: vs)
  | down : Graft d u vs vs' → Graft d u (node c vs :: ws) (node c vs' :: ws)
  | next : Graft d u vs vs' → Graft d u (v :: vs) (v :: vs')

namespace Graft

theorem ne_nil (g : Graft d u ts ts') : ts ≠ [] ∧ ts' ≠ [] := by
  cases g <;> simp

theorem of_node : Graft d u [node c us] [t] → ∃ us', t = node c us' ∧ Graft d u us us'
  | down g => ⟨_, rfl, g⟩

theorem map_data (g : Graft d u ts ts') (h : u.data = d) : ts'.map data = ts.map data := by
  induction g <;> simp_all [data]

-- The replaced leaf had no entries, and the other nodes keep theirs.
theorem expandedAll_perm (g : Graft d u ts ts') (h : u.data = d) :
    (expandedAll ts').Perm (u.expanded ++ expandedAll ts) := by
  induction g
  case here => simp [expandedAll, expanded]
  case down us us' c _ g ih =>
    have he : entry c us' = entry c us := by simp [entry, g.ne_nil, g.map_data h]
    simp only [expandedAll_node_cons, he]
    apply List.Perm.trans (.append_left _ (.append_right _ ih))
    rw [List.append_assoc]
    exact List.perm_append_comm_assoc _ _ _
  case next g ih =>
    simp only [expandedAll]
    exact .trans (.append_left _ ih) (List.perm_append_comm_assoc _ _ _)

theorem prunedAll_eq (g : Graft d u ts ts') (hu : u.pruned = u) (h : prunedAll ts = ts) :
    prunedAll ts' = ts' := by
  induction g
  case here => simp_all [prunedAll]
  case down g _ =>
    simp only [prunedAll, pruned_node g.ne_nil.left, pruned_node g.ne_nil.right] at h ⊢
    simp_all
  case next => simp_all [prunedAll]

end Graft
end DocPress.Tree
