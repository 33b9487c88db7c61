import DocPress.Proofs.Arena.Layout

-- Trees that are stored take up the next free nodes, one for each of their nodes, and leave the
-- others as they are.

namespace DocPress.Arena

open Tree

variable {a b c : Arena} {i j : Nat} {is js ks ls : List Nat} {t : Tree} {ts us : List Tree}

namespace Extends

theorem refl (a : Arena) : Extends a a where
  size_le := Nat.le_refl _
  kept    := fun _ _ => rfl

theorem trans (h₁ : Extends c b) (h₂ : Extends b a) : Extends c a where
  size_le := Nat.le_trans h₂.size_le h₁.size_le
  kept    := fun i hi => (h₁.kept i (Nat.lt_of_lt_of_le hi h₂.size_le)).trans (h₂.kept i hi)

theorem push (a : Arena) (d : Text) (c : Option (List Nat)) : Extends (a.push d c).2 a where
  size_le := by simp [Arena.push, size]
  kept    := fun i hi => by
    have : i ≠ a.entries.size := Nat.ne_of_lt hi
    simp [Arena.push, Array.getElem?_push, this]

end Extends

-- Trees have been stored in the nodes between the ends of two arenas.
structure Stored (a b : Arena) (is : List Nat) (ts : List Tree) (js : List Nat) : Prop where
  extends' : Extends b a
  holds    : Holds b is ts js
  numbers  : js.Perm (List.range' a.size js.length)
  size_eq  : b.size = a.size + js.length

namespace Stored

theorem nodup (h : Stored a b is ts js) : js.Nodup :=
  h.numbers.nodup_iff.mpr List.nodup_range'

theorem le_of_mem (h : Stored a b is ts js) (hj : j ∈ js) : a.size ≤ j :=
  (List.mem_range'_1.mp (h.numbers.mem_iff.mp hj)).left

theorem nil (a : Arena) : Stored a a [] [] [] where
  extends' := .refl a
  holds    := .nil
  numbers  := .nil
  size_eq  := rfl

theorem leaf (a : Arena) (d : Text) : Stored a (a.push d none).2 [a.size] [.leaf d] [a.size] where
  extends' := .push ..
  holds    := .leaf (by simp [push, size]) .nil
  numbers  := .refl _
  size_eq  := by simp [push, size]

theorem node (h : Stored a b ks us ls) (d : Text) :
    Stored a (b.push d (some ks)).2 [b.size] [.node d us] (b.size :: ls) where
  extends' := .trans (.push ..) h.extends'
  holds    := by
    have hb := h.holds.mono (.push b d (some ks))
    simpa using Holds.node (by simp [push, size]) hb .nil
  numbers  := by
    rw [List.length_cons, List.range'_1_concat, ← h.size_eq]
    exact (h.numbers.cons _).trans (List.perm_append_singleton _ _).symm
  size_eq  := by
    have := h.size_eq
    simp only [size, push, Array.size_push, List.length_cons] at this ⊢
    omega

theorem cons (h : Stored a b [i] [t] ls) (h' : Stored b c is ts js) :
    Stored a c (i :: is) (t :: ts) (ls ++ js) where
  extends' := .trans h'.extends' h.extends'
  holds    := (h.holds.mono h'.extends').cons h'.holds
  numbers  := by
    rw [List.length_append, ← List.range'_append_1, ← h.size_eq]
    exact h.numbers.append h'.numbers
  size_eq  := by rw [h'.size_eq, h.size_eq, List.length_append, Nat.add_assoc]

end Stored

theorem insertTrees_stored (ts : List Tree) (a : Arena) :
    ∃ js, Stored a (insertTrees ts a).2 (insertTrees ts a).1 ts js := by
  induction ts using forestInduction generalizing a
  case nil => exact ⟨_, .nil a⟩
  case leaf d ts ih =>
    have ⟨_, h⟩ := ih (a.push d none).2
    exact ⟨_, .cons (.leaf a d) h⟩
  case node d us ts ihu iht =>
    have ⟨_, hu⟩ := ihu a
    have ⟨_, ht⟩ := iht ((insertTrees us a).2.push d (some (insertTrees us a).1)).2
    exact ⟨_, .cons (hu.node d) ht⟩

theorem insertTree_stored (t : Tree) (a : Arena) :
    ∃ js, Stored a (insertTree t a).2 [(insertTree t a).1] [t] js := by
  cases t
  case leaf d => exact ⟨_, .leaf a d⟩
  case node d us =>
    have ⟨_, h⟩ := insertTrees_stored us a
    exact ⟨_, h.node d⟩

theorem copyChildren_extends (a : Arena) (s : Nat) : Extends (a.copyChildren s).2 a := by
  unfold copyChildren
  split
  · exact .refl a
  · exact (insertTrees_stored _ a).choose_spec.extends'

end DocPress.Arena
