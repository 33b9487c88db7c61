import Mathlib.Data.List.Infix
import Mathlib.Data.List.ModifyLast
import DocPress.Proofs.Tree.Nodes

-- Addresses of nodes. An address tells the way down from the root by the places among the children.

namespace DocPress.Tree

-- The tree at an address.
def at? (t : Tree) : List Nat → Option Tree
  | []     => some t
  | i :: p => t.children[i]?.bind (at? · p)

mutual

-- The addresses of all nodes in pre-order.
def addresses : Tree → List (List Nat)
  | leaf _    => [[]]
  | node _ ts => [] :: addressesFrom 0 ts

-- The addresses of nodes of which the first ones stand at a place and behind it.
def addressesFrom (k : Nat) : List Tree → List (List Nat)
  | []      => []
  | t :: ts => t.addresses.map (k :: ·) ++ addressesFrom (k + 1) ts

end

-- No sibling comes after the node.
def isLast (t : Tree) (p : List Nat) : Bool :=
  (t.at? (p.modifyLast (· + 1))).isNone

-- The addresses of the nodes between the root and a node.
def between (p : List Nat) : List (List Nat) :=
  p.inits.filter fun q => q ≠ [] ∧ q ≠ p

variable {i k : Nat} {p q : List Nat} {t u : Tree} {ts us : List Tree}

theorem addresses_eq (t : Tree) : t.addresses = [] :: addressesFrom 0 t.children := by
  cases t <;> rfl

theorem at?_cons (hi : t.children[i]? = some u) (p : List Nat) : t.at? (i :: p) = u.at? p := by
  rw [at?, hi, Option.bind_some]

theorem isLast_singleton (t : Tree) (i : Nat) : t.isLast [i] = t.children[i + 1]?.isNone := by
  rw [isLast]
  show (t.at? [i + 1]).isNone = _
  cases h : t.children[i + 1]? <;> simp [at?, h]

theorem isLast_cons (hi : t.children[i]? = some u) (hp : p ≠ []) :
    t.isLast (i :: p) = u.isLast p := by
  have hm : (i :: p).modifyLast (· + 1) = i :: p.modifyLast (· + 1) :=
    List.modifyLast_append_of_right_ne_nil _ [i] p hp
  rw [isLast, hm, at?_cons hi, isLast]

theorem between_singleton (i : Nat) : between [i] = [] := by
  simp [between]

theorem between_cons (i : Nat) (hp : p ≠ []) :
    between (i :: p) = [i] :: (between p).map (i :: ·) := by
  cases p
  case nil => contradiction
  case cons j p =>
    simp [between, List.filter_map, Function.comp_def]

theorem ne_nil_of_mem_between (hq : q ∈ between p) : q ≠ [] := by
  have ⟨hn, _⟩ : q ≠ [] ∧ q ≠ p := by simpa using (List.mem_filter.mp hq).right
  exact hn

theorem mem_addressesFrom_iff :
    p ∈ addressesFrom k ts ↔ ∃ i u q, ts[i]? = some u ∧ q ∈ u.addresses ∧ p = (k + i) :: q := by
  induction ts generalizing k
  case nil => simp [addressesFrom]
  case cons t ts ih =>
    rw [addressesFrom, List.mem_append, List.mem_map, ih]
    constructor
    case mp =>
      rintro (⟨q, hq, rfl⟩ | ⟨i, u, q, hi, hq, rfl⟩)
      case inl => exact ⟨0, t, q, rfl, hq, rfl⟩
      case inr => exact ⟨i + 1, u, q, hi, hq, by rw [Nat.add_right_comm, Nat.add_assoc]⟩
    case mpr =>
      rintro ⟨_ | i, u, q, hi, hq, rfl⟩
      case zero => exact .inl ⟨q, Option.some.inj hi ▸ hq, rfl⟩
      case succ => exact .inr ⟨i, u, q, hi, hq, by rw [Nat.add_right_comm, Nat.add_assoc]⟩

-- The addresses are those at which there is a node.
theorem mem_addresses_iff : p ∈ t.addresses ↔ (t.at? p).isSome := by
  induction p generalizing t
  case nil => simp [addresses_eq, at?]
  case cons i p ih =>
    rw [addresses_eq, List.mem_cons, or_iff_right (List.cons_ne_nil i p), mem_addressesFrom_iff]
    simp only [Nat.zero_add, List.cons.injEq, at?]
    cases hi : t.children[i]?
    case none => simp [hi]
    case some u => simp [hi, ih]

theorem ne_nil_of_mem_addressesFrom (hp : p ∈ addressesFrom k ts) : p ≠ [] := by
  have ⟨_, _, _, _, _, hp⟩ := mem_addressesFrom_iff.mp hp
  exact hp ▸ List.cons_ne_nil _ _

theorem length_addressesFrom (k : Nat) (ts : List Tree) :
    (addressesFrom k ts).length = (namesAll ts).length := by
  induction ts using childrenInduction generalizing k
  case nil => rfl
  case cons t ts ihc ihs =>
    simp [addressesFrom, addresses_eq, namesAll_cons, ihc, ihs, Nat.add_right_comm]

theorem length_addresses (t : Tree) : t.addresses.length = t.size := by
  rw [addresses_eq, List.length_cons, length_addressesFrom, size, names_eq, List.length_cons]

-- A node comes before those below it, and these come before the later siblings of the node.
theorem pairwise_addressesFrom (k : Nat) (ts : List Tree) :
    (addressesFrom k ts).Pairwise (· < ·) := by
  induction ts using childrenInduction generalizing k
  case nil => exact .nil
  case cons t ts ihc ihs =>
    have ht : t.addresses.Pairwise (· < ·) := by
      rw [addresses_eq]
      refine .cons (fun p hp => ?_) (ihc 0)
      have ⟨i, q, hp⟩ := List.exists_cons_of_ne_nil (ne_nil_of_mem_addressesFrom hp)
      exact hp ▸ List.nil_lt_cons i q
    rw [addressesFrom]
    refine List.pairwise_append.mpr ⟨?_, ihs (k + 1), fun p hp q hq => ?_⟩
    case refine_1 =>
      exact ht.map _ fun p q hpq => List.cons_lt_cons_iff.mpr (.inr ⟨rfl, hpq⟩)
    case refine_2 =>
      have ⟨_, _, hp⟩ := List.mem_map.mp hp
      have ⟨i, _, _, _, _, hq⟩ := mem_addressesFrom_iff.mp hq
      rw [← hp, hq]
      exact List.cons_lt_cons_iff.mpr (.inl (by omega))

theorem pairwise_addresses (t : Tree) : t.addresses.Pairwise (· < ·) := by
  have h := pairwise_addressesFrom 0 [t]
  simp only [addressesFrom, List.append_nil, List.pairwise_map] at h
  exact h.imp fun h => by simpa using h

end DocPress.Tree
