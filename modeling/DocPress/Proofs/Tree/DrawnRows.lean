import DocPress.Proofs.Tree.Addresses
import DocPress.Proofs.Tree.Content
import DocPress.Proofs.Tree.Drawing

-- A drawing has one row for each node, in pre-order. The row of a node tells of each node on the
-- way down to it whether there is a later sibling.

namespace DocPress.Tree

open Text Drawing

-- What stands in front of the label of a node below the root: a rail for each node between the root
-- and the node, and the sign of the node.
def gutter (t : Tree) (p : List Nat) : Text :=
  (between p).flatMap (fun q => rail (t.isLast q)) ++ sign (t.isLast p)

def labelAt (t : Tree) (p : List Nat) : Text :=
  (t.at? p).elim [] label

def rowAt (t : Tree) (p : List Nat) : Text :=
  if p = [] then rootSign ++ t.labelAt p
  else spaces rootSign.length ++ t.gutter p ++ t.labelAt p

variable {i : Nat} {p : List Nat} {t u : Tree} {ts vs : List Tree}

theorem gutter_singleton (t : Tree) (i : Nat) : t.gutter [i] = sign (t.isLast [i]) := by
  rw [gutter, between_singleton]
  rfl

theorem gutter_cons (hi : t.children[i]? = some u) (hp : p ≠ []) :
    t.gutter (i :: p) = rail (t.isLast [i]) ++ u.gutter p := by
  have hq : ∀ q ∈ between p, rail (t.isLast (i :: q)) = rail (u.isLast q) := fun q hq => by
    rw [isLast_cons hi (ne_nil_of_mem_between hq)]
  rw [gutter, between_cons i hp, isLast_cons hi hp, List.flatMap_cons, List.flatMap_map,
    List.flatMap_congr hq, List.append_assoc, gutter]

-- The rows of the last children of a node.
theorem rows_eq_map (h : t.children = vs ++ ts) :
    rows ts = (addressesFrom vs.length ts).map fun p => t.gutter p ++ t.labelAt p := by
  induction ts using childrenInduction generalizing t vs
  case nil => rfl
  case cons u us ihc ihs =>
    have hi : t.children[vs.length]? = some u := by simp [h]
    have hl : t.isLast [vs.length] = us.isEmpty := by
      rw [isLast_singleton, h]
      cases us <;> simp
    have hs : t.children = (vs ++ [u]) ++ us := by rw [h, List.append_assoc]; rfl
    have hu : ∀ p ∈ addressesFrom 0 u.children,
        rail us.isEmpty ++ (u.gutter p ++ u.labelAt p) =
          t.gutter (vs.length :: p) ++ t.labelAt (vs.length :: p) := fun p hp => by
      rw [gutter_cons hi (ne_nil_of_mem_addressesFrom hp), hl, labelAt, labelAt, at?_cons hi,
        List.append_assoc]
    rw [rows, rowsBelow_eq, ihc (List.nil_append _).symm, ihs hs, addressesFrom, addresses_eq,
      List.map_cons, List.map_append, List.map_map, List.map_cons, List.map_map, gutter_singleton,
      hl, labelAt, at?_cons hi, List.length_append, List.length_singleton]
    exact congrArg _ (congrArg (· ++ _) (List.map_congr_left hu))

theorem drawnRows_eq_map (t : Tree) : t.drawnRows = t.addresses.map t.rowAt := by
  rw [drawnRows, addresses_eq, rows_eq_map (List.nil_append t.children).symm, List.map_cons,
    List.map_map]
  refine congrArg _ (List.map_congr_left fun p hp => ?_)
  rw [rowAt, if_neg (ne_nil_of_mem_addressesFrom hp), List.append_assoc, Function.comp_apply]

-- What is read from an outline has no white space at the ends of its data.
theorem legible_ofOutline (x : Text) : Legible [ofOutline x] := by
  intro d hd
  rw [namesAll, namesAll, List.append_nil] at hd
  cases hb : blank d
  case false => exact .inr rfl
  case true  => exact .inl ((bare_of_mem_names hd).trimmed.symm.trans (trim_of_blank hb))

-- A drawing has the rows of the nodes in pre-order, and no other ones.
structure Drawn (t : Tree) : Prop where
  draw : t.draw = joinLines (t.addresses.map t.rowAt)
  rows : lines t.draw = t.addresses.map t.rowAt
  length : (lines t.draw).length = t.size
  nodes : ∀ p, p ∈ t.addresses ↔ (t.at? p).isSome
  order : t.addresses.Pairwise (· < ·)

theorem Legible.drawn (h : Legible [t]) : t.Drawn := by
  have hr : lines t.draw = t.addresses.map t.rowAt := by rw [lines_draw h, drawnRows_eq_map]
  constructor
  case draw   => rw [draw_eq h, drawnRows_eq_map]
  case rows   => exact hr
  case length => rw [hr, List.length_map, length_addresses]
  case nodes  => exact fun _ => mem_addresses_iff
  case order  => exact pairwise_addresses t

theorem drawn_of_legible : (∀ t, Legible [t] → t.Drawn) ∧ ∀ x, (ofOutline x).Drawn :=
  ⟨fun _ h => h.drawn, fun x => (legible_ofOutline x).drawn⟩

theorem drawn_of_legible_rails :
    let t := node "a" [node [] [leaf "b\n c", node "d" [leaf "e"]], leaf "f"]
    Legible [t] ∧ t.Drawn ∧ (ofOutline "a\n- b").Drawn ∧
      t.draw = "• a\n  ├─ +\n  │  ├─ b c\n  │  └─ d\n  │     └─ e\n  └─ f" := by
  intro t
  have ht : Legible [t] := by decide
  exact ⟨ht, drawn_of_legible.left t ht, drawn_of_legible.right _, by decide⟩

end DocPress.Tree
