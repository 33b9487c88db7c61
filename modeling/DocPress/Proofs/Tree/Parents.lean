import Mathlib.Data.List.GetD
import DocPress.Proofs.Tree.Levels

-- The outline that levels make of items: an item belongs below the nearest one in front of it that
-- has a smaller level. Where all items that belong below the same one have the same level, the tree
-- that is read from their lines is this outline.

namespace DocPress.Tree

open Text

-- The nearest item in front of the one at a position that has a smaller level.
def parent? (levels : List Nat) (i : Nat) : Option Nat :=
  ((List.range i).filter fun j => levels.getD j 0 < levels.getD i 0).getLast?

-- Items that belong below the same one, or below none, have the same level.
def Aligned (levels : List Nat) : Prop :=
  ∀ i < levels.length, ∀ j < levels.length,
    parent? levels i = parent? levels j → levels.getD i 0 = levels.getD j 0

instance (levels : List Nat) : Decidable (Aligned levels) :=
  inferInstanceAs (Decidable (∀ i < levels.length, _))

-- The items that belong below another one, or below none, with their positions.
def heldBy (ps : List (Nat × Text)) (parent : Option Nat) : List ((Nat × Text) × Nat) :=
  ps.zipIdx.filter fun q => parent? (ps.map (·.1)) q.2 = parent

-- The same item at a later position.
def moved (k : Nat) (q : (Nat × Text) × Nat) : (Nat × Text) × Nat :=
  (q.1, q.2 + k)

variable {i j k : Nat} {n : Text} {parent parent' : Option Nat} {xs ys : List Nat}
  {ps qs : List (Nat × Text)} {q : (Nat × Text) × Nat}

theorem parent?_lt (h : parent? xs i = some j) : j < i :=
  List.mem_range.mp (List.mem_filter.mp (List.mem_of_getLast? h)).left

theorem parent?_eq_none_iff : parent? xs i = none ↔ ∀ j < i, xs.getD i 0 ≤ xs.getD j 0 := by
  simp [parent?]

theorem lt_of_mem_heldBy (h : q ∈ heldBy ps (some i)) : i < q.2 :=
  parent?_lt (of_decide_eq_true (List.mem_filter.mp h).right)

theorem lt_length_of_mem_heldBy (h : q ∈ heldBy ps parent) : q.2 < ps.length := by
  have hz := (List.mem_filter.mp h).left
  simpa using List.snd_lt_of_mem_zipIdx hz

-- The trees of the items that belong below another one, or below none. Those that belong below each
-- of them hang there, in their order.
def placed (ps : List (Nat × Text)) (parent : Option Nat) : List Tree :=
  (heldBy ps parent).attach.map fun q => named q.val.1.2 (placed ps (some q.val.2))
termination_by parent.elim (ps.length + 1) (ps.length - ·)
decreasing_by
  have hl := lt_length_of_mem_heldBy q.property
  cases parent
  case none   => simp only [Option.elim]; omega
  case some i => have := lt_of_mem_heldBy q.property; simp only [Option.elim]; omega

theorem placed_eq (ps : List (Nat × Text)) (parent : Option Nat) :
    placed ps parent = (heldBy ps parent).map fun q => named q.1.2 (placed ps (some q.2)) := by
  rw [placed]
  exact List.attach_map_val (f := fun q : (Nat × Text) × Nat => named q.1.2 (placed ps (some q.2)))

-- Levels that are put behind others.

theorem parent?_append_left (hi : i < xs.length) (ys : List Nat) :
    parent? (xs ++ ys) i = parent? xs i := by
  refine congrArg List.getLast? (List.filter_congr fun j hj => ?_)
  have hj := Nat.lt_trans (List.mem_range.mp hj) hi
  rw [List.getD_append _ _ _ _ hj, List.getD_append _ _ _ _ hi]

theorem getD_append_add (xs ys : List Nat) (j : Nat) :
    (xs ++ ys).getD (xs.length + j) 0 = ys.getD j 0 := by
  rw [List.getD_append_right _ _ _ _ (Nat.le_add_right _ j), Nat.add_sub_cancel_left]

theorem head_le_getD (hy : ∀ x ∈ xs, ∀ y ∈ ys.head?, y ≤ x) (hn : 0 < ys.length)
    (hj : j < xs.length) : ys.getD 0 0 ≤ xs.getD j 0 := by
  cases ys
  case nil       => contradiction
  case cons y ys =>
    have hm : xs.getD j 0 ∈ xs := List.getD_eq_getElem xs 0 hj ▸ List.getElem_mem hj
    exact hy _ hm y rfl

-- Behind levels of which none is smaller than the first one, no parent is found before it.
theorem parent?_append_right (hy : ∀ x ∈ xs, ∀ y ∈ ys.head?, y ≤ x) (hi : i < ys.length) :
    parent? (xs ++ ys) (xs.length + i) = (parent? ys i).map (xs.length + ·) := by
  have hm : ((List.range i).map (xs.length + ·)).filter
        (fun j => (xs ++ ys).getD j 0 < (xs ++ ys).getD (xs.length + i) 0) =
      ((List.range i).filter fun j => ys.getD j 0 < ys.getD i 0).map (xs.length + ·) := by
    simp only [List.filter_map, Function.comp_def, getD_append_add]
  rw [parent?, List.range_add, List.filter_append, List.getLast?_append, hm, List.getLast?_map,
    ← parent?]
  cases hp : parent? ys i
  case some j => rfl
  case none =>
    have hle := parent?_eq_none_iff.mp hp
    have hf : (List.range xs.length).filter
        (fun j => (xs ++ ys).getD j 0 < (xs ++ ys).getD (xs.length + i) 0) = [] := by
      refine List.filter_eq_nil_iff.mpr fun j hj => ?_
      have hj := List.mem_range.mp hj
      have h₀ := head_le_getD hy (Nat.zero_lt_of_lt hi) hj
      have hi : ys.getD i 0 ≤ ys.getD 0 0 := by
        cases i
        case zero   => exact Nat.le_refl _
        case succ i => exact hle 0 (Nat.succ_pos i)
      rw [getD_append_add, List.getD_append _ _ _ _ hj]
      simpa using Nat.le_trans hi h₀
    rw [hf]
    rfl

theorem parent?_cons (hk : ∀ x ∈ xs, k < x) (hi : i < xs.length) :
    parent? (k :: xs) (i + 1) = some (((parent? xs i).map (· + 1)).getD 0) := by
  have hx : k < xs.getD i 0 := List.getD_eq_getElem xs 0 hi ▸ hk _ (List.getElem_mem hi)
  rw [parent?, List.range_succ_eq_map, List.filter_cons_of_pos (by simpa using hx), List.filter_map,
    List.getLast?_cons, List.getLast?_map]
  rfl

theorem zipIdx_eq_moved (ps : List (Nat × Text)) (k : Nat) :
    ps.zipIdx k = ps.zipIdx.map (moved k) :=
  (List.map_snd_add_zipIdx_eq_zipIdx (n := k) (k := 0)).symm

theorem heldBy_append (hq : ∀ p ∈ ps, ∀ q ∈ qs.head?, q.1 ≤ p.1) (parent : Option Nat) :
    heldBy (ps ++ qs) parent = heldBy ps parent ++ (qs.zipIdx.filter fun q =>
      (parent? (qs.map (·.1)) q.2).map (ps.length + ·) = parent).map (moved ps.length) := by
  have hy : ∀ x ∈ ps.map (·.1), ∀ y ∈ (qs.map (·.1)).head?, y ≤ x := by
    simpa [List.head?_map] using hq
  rw [heldBy, List.zipIdx_append, List.filter_append, Nat.zero_add, zipIdx_eq_moved qs,
    List.filter_map, List.map_append]
  congr 1
  case e_a =>
    refine List.filter_congr fun q hm => ?_
    have hl : q.2 < (ps.map (·.1)).length := by simpa using List.snd_lt_of_mem_zipIdx hm
    rw [parent?_append_left hl]
  case e_a =>
    refine congrArg _ (List.filter_congr fun q hm => ?_)
    have hl : q.2 < (qs.map (·.1)).length := by simpa using List.snd_lt_of_mem_zipIdx hm
    have hp := parent?_append_right hy hl
    rw [List.length_map, Nat.add_comm] at hp
    rw [Function.comp_apply, moved, hp]

theorem heldBy_append_left (hq : ∀ p ∈ ps, ∀ q ∈ qs.head?, q.1 ≤ p.1) (hj : j < ps.length) :
    heldBy (ps ++ qs) (some j) = heldBy ps (some j) := by
  have hf : (qs.zipIdx.filter fun q =>
      (parent? (qs.map (·.1)) q.2).map (ps.length + ·) = some j) = [] := by
    refine List.filter_eq_nil_iff.mpr fun q _ h => ?_
    have ⟨i, _, hi⟩ := Option.map_eq_some_iff.mp (of_decide_eq_true h)
    omega
  rw [heldBy_append hq, hf, List.map_nil, List.append_nil]

theorem heldBy_append_right (hq : ∀ p ∈ ps, ∀ q ∈ qs.head?, q.1 ≤ p.1) (j : Nat) :
    heldBy (ps ++ qs) (some (j + ps.length)) = (heldBy qs (some j)).map (moved ps.length) := by
  have hl : heldBy ps (some (j + ps.length)) = [] := by
    refine List.eq_nil_iff_forall_not_mem.mpr fun q h => ?_
    have h₁ := lt_of_mem_heldBy h
    have h₂ := lt_length_of_mem_heldBy h
    omega
  have hf : ∀ o : Option Nat, o.map (ps.length + ·) = some (j + ps.length) ↔ o = some j := by
    intro o
    cases o <;> simp [Nat.add_comm]
  rw [heldBy_append hq, hl, List.nil_append, heldBy]
  simp only [hf]

theorem heldBy_append_none (hq : ∀ p ∈ ps, ∀ q ∈ qs.head?, q.1 ≤ p.1) :
    heldBy (ps ++ qs) none = heldBy ps none ++ (heldBy qs none).map (moved ps.length) := by
  rw [heldBy_append hq, heldBy.eq_def qs]
  simp only [Option.map_eq_none_iff]

-- An item with deeper ones behind it holds all that are held by none of those.
theorem heldBy_cons (hk : ∀ p ∈ ps, k < p.1) (n : Text) (parent : Option Nat) :
    heldBy ((k, n) :: ps) parent = (if parent = none then [((k, n), 0)] else []) ++
      (ps.zipIdx.filter fun q =>
        some (((parent? (ps.map (·.1)) q.2).map (· + 1)).getD 0) = parent).map (moved 1) := by
  have hx : ∀ x ∈ ps.map (·.1), k < x := List.forall_mem_map.mpr hk
  have h₀ : parent? (((k, n) :: ps).map (·.1)) 0 = none := rfl
  have hf : (ps.zipIdx.map (moved 1)).filter
        (fun q => parent? (((k, n) :: ps).map (·.1)) q.2 = parent) =
      (ps.zipIdx.filter fun q =>
        some (((parent? (ps.map (·.1)) q.2).map (· + 1)).getD 0) = parent).map (moved 1) := by
    rw [List.filter_map]
    refine congrArg _ (List.filter_congr fun q hm => ?_)
    have hl : q.2 < (ps.map (·.1)).length := by simpa using List.snd_lt_of_mem_zipIdx hm
    rw [Function.comp_apply, moved, List.map_cons, parent?_cons hx hl]
  rw [heldBy, List.zipIdx_cons, Nat.zero_add, List.filter_cons, zipIdx_eq_moved ps, hf, h₀]
  cases parent <;> rfl

-- Items at later positions that hold the same items have the same trees.
theorem placed_moved
    (h : ∀ j < qs.length, heldBy ps (some (j + k)) = (heldBy qs (some j)).map (moved k))
    (hp : heldBy ps parent' = (heldBy qs parent).map (moved k)) :
    placed ps parent' = placed qs parent := by
  induction parent using placed.induct qs generalizing parent'
  case case1 parent ih =>
    rw [placed_eq ps, placed_eq qs, hp, List.map_map]
    refine List.map_congr_left fun q hq => congrArg (named q.1.2) ?_
    exact ih ⟨q, hq⟩ (h q.2 (lt_length_of_mem_heldBy hq))

theorem map_moved_zero (qs : List ((Nat × Text) × Nat)) : qs.map (moved 0) = qs :=
  List.map_id'' (fun _ => rfl) qs

theorem placed_append (hq : ∀ p ∈ ps, ∀ q ∈ qs.head?, q.1 ≤ p.1) :
    placed (ps ++ qs) none = placed ps none ++ placed qs none := by
  have hl : ∀ q ∈ heldBy ps none, placed (ps ++ qs) (some q.2) = placed ps (some q.2) := by
    have hj : ∀ j < ps.length,
        heldBy (ps ++ qs) (some j) = (heldBy ps (some j)).map (moved 0) := fun j hj =>
      (heldBy_append_left hq hj).trans (map_moved_zero _).symm
    exact fun q hm => placed_moved (k := 0) hj (hj q.2 (lt_length_of_mem_heldBy hm))
  have hr : ∀ q ∈ heldBy qs none,
      placed (ps ++ qs) (some (moved ps.length q).2) = placed qs (some q.2) := fun q _ =>
    placed_moved (fun j _ => heldBy_append_right hq j) (heldBy_append_right hq q.2)
  rw [placed_eq (ps ++ qs), placed_eq ps, placed_eq qs, heldBy_append_none hq, List.map_append,
    List.map_map]
  congr 1
  case e_a => exact List.map_congr_left fun q hm => congrArg _ (hl q hm)
  case e_a => exact List.map_congr_left fun q hm => congrArg _ (hr q hm)

theorem heldBy_cons_none (hk : ∀ p ∈ ps, k < p.1) (n : Text) :
    heldBy ((k, n) :: ps) none = [((k, n), 0)] := by
  rw [heldBy_cons hk]
  simp

theorem heldBy_cons_zero (hk : ∀ p ∈ ps, k < p.1) (n : Text) :
    heldBy ((k, n) :: ps) (some 0) = (heldBy ps none).map (moved 1) := by
  have hf : ∀ o : Option Nat, some ((o.map (· + 1)).getD 0) = some 0 ↔ o = none := by
    intro o
    cases o <;> simp
  rw [heldBy_cons hk, heldBy.eq_def ps]
  simp only [hf, reduceCtorEq, if_false, List.nil_append]

theorem heldBy_cons_succ (hk : ∀ p ∈ ps, k < p.1) (n : Text) (j : Nat) :
    heldBy ((k, n) :: ps) (some (j + 1)) = (heldBy ps (some j)).map (moved 1) := by
  have hf : ∀ o : Option Nat, some ((o.map (· + 1)).getD 0) = some (j + 1) ↔ o = some j := by
    intro o
    cases o <;> simp
  rw [heldBy_cons hk, heldBy.eq_def ps]
  simp only [hf, reduceCtorEq, if_false, List.nil_append]

theorem placed_cons (hk : ∀ p ∈ ps, k < p.1) (n : Text) :
    placed ((k, n) :: ps) none = [named n (placed ps none)] := by
  have h : placed ((k, n) :: ps) (some 0) = placed ps none :=
    placed_moved (fun j _ => heldBy_cons_succ hk n j) (heldBy_cons_zero hk n)
  rw [placed_eq, heldBy_cons_none hk, List.map_singleton, h]

-- An item, with what is deeper behind it, makes the first tree. The other trees are those of the
-- rest.
theorem placed_before (k : Nat) (n : Text) (ps : List (Nat × Text)) :
    placed ((k, n) :: ps) none =
      named n (placed (before k ps) none) :: placed (ps.dropWhile (k < ·.1)) none := by
  have hk : ∀ p ∈ before k ps, k < p.1 := fun p => deeper_of_mem_before
  have hq : ∀ p ∈ (k, n) :: before k ps, ∀ q ∈ (ps.dropWhile (k < ·.1)).head?, q.1 ≤ p.1 := by
    have hd : ∀ q ∈ (ps.dropWhile (k < ·.1)).head?, q.1 ≤ k := fun q hm =>
      le_of_head?_dropWhile (by rw [List.head?_map]; exact Option.mem_map_of_mem _ hm)
    exact List.forall_mem_cons.mpr
      ⟨hd, fun p hp q hm => Nat.le_trans (hd q hm) (Nat.le_of_lt (hk p hp))⟩
  have h := placed_append hq
  rwa [List.cons_append, before_append, placed_cons hk] at h

theorem placed_nil : placed [] none = [] := by
  rw [placed_eq]
  rfl

-- What follows an item up to the next one that is not deeper is handled by itself, as is the rest.
theorem before_induction {motive : List (Nat × Text) → Prop} (nil : motive [])
    (cons : ∀ k n ps, motive (before k ps) → motive (ps.dropWhile (k < ·.1)) →
      motive ((k, n) :: ps))
    (ps : List (Nat × Text)) : motive ps := by
  induction hl : ps.length using Nat.strong_induction_on generalizing ps
  case h l ih =>
    cases ps
    case nil => exact nil
    case cons p ps =>
      have hb := Nat.lt_succ_of_le (length_before_le p.1 ps)
      have hd := Nat.lt_succ_of_le (List.dropWhile_suffix (l := ps) (p.1 < ·.1)).length_le
      exact cons p.1 p.2 ps (ih _ (hl ▸ hb) _ rfl) (ih _ (hl ▸ hd) _ rfl)

theorem namesAll_placed (ps : List (Nat × Text)) : namesAll (placed ps none) = ps.map (·.2) := by
  induction ps using before_induction
  case nil => rw [placed_nil]; rfl
  case cons k n ps ihb ihd =>
    rw [placed_before, namesAll_cons, data_named, children_named, ihb, ihd, ← List.map_append,
      before_append, List.map_cons]

-- What is aligned stays so in its pieces.

theorem Aligned.left (h : Aligned (xs ++ ys)) : Aligned xs := by
  intro i hi j hj he
  have hle : xs.length ≤ (xs ++ ys).length := by simp
  have hl := h i (Nat.lt_of_lt_of_le hi hle) j (Nat.lt_of_lt_of_le hj hle)
  rw [parent?_append_left hi, parent?_append_left hj, List.getD_append _ _ _ _ hi,
    List.getD_append _ _ _ _ hj] at hl
  exact hl he

theorem Aligned.right (hy : ∀ x ∈ xs, ∀ y ∈ ys.head?, y ≤ x) (h : Aligned (xs ++ ys)) :
    Aligned ys := by
  intro i hi j hj he
  have hl := h (xs.length + i) (by simpa using hi) (xs.length + j) (by simpa using hj)
  rw [parent?_append_right hy hi, parent?_append_right hy hj, getD_append_add,
    getD_append_add] at hl
  exact hl (congrArg _ he)

theorem Aligned.tail (hk : ∀ x ∈ xs, k < x) (h : Aligned (k :: xs)) : Aligned xs := by
  intro i hi j hj he
  have hl := h (i + 1) (Nat.succ_lt_succ hi) (j + 1) (Nat.succ_lt_succ hj)
  rw [parent?_cons hk hi, parent?_cons hk hj, he] at hl
  exact hl rfl

-- The first one belongs below none, as does one at the least level.
theorem Aligned.least_eq (h : Aligned (((k, n) :: ps).map (·.1))) : least ((k, n) :: ps) = k := by
  generalize hl : ((k, n) :: ps).map (·.1) = levels at h
  have ⟨⟨x, hx⟩, hm⟩ := least_spec (List.cons_ne_nil (k, n) ps)
  have hd : ∀ j, (hj : j < levels.length) → least ((k, n) :: ps) ≤ levels.getD j 0 := by
    intro j hj
    have hv : levels[j] ∈ ((k, n) :: ps).map (·.1) := hl ▸ List.getElem_mem hj
    have ⟨p, hp, he⟩ := List.mem_map.mp hv
    rw [List.getD_eq_getElem _ _ hj, ← he]
    exact hm p hp
  have hx : least ((k, n) :: ps) ∈ levels := hl ▸ List.mem_map_of_mem hx
  have ⟨i, hi, he⟩ := List.getElem_of_mem hx
  have hi₀ : levels.getD i 0 = least ((k, n) :: ps) := by rw [List.getD_eq_getElem _ _ hi, he]
  have hp : parent? levels i = none :=
    parent?_eq_none_iff.mpr fun j hj => hi₀ ▸ hd j (Nat.lt_trans hj hi)
  have hk : levels.getD 0 0 = k := by rw [← hl]; rfl
  have h₀ := h i hi 0 (Nat.zero_lt_of_lt hi) (hp.trans rfl)
  exact hi₀.symm.trans (h₀.trans hk)

theorem before_of_aligned (h : Aligned (ps.map (·.1))) : before (least ps) ps = [] := by
  cases ps
  case nil       => rfl
  case cons p ps =>
    rw [h.least_eq]
    exact before_margin p.1 p.2 ps

theorem parts_dropWhile (m : Nat) (ps : List (Nat × Text)) :
    parts m (ps.dropWhile (m < ·.1)) = parts m ps := by
  induction ps
  case nil => rfl
  case cons p ps ih =>
    by_cases hm : m < p.1
    case pos => rw [List.dropWhile_cons_of_pos (by simpa using hm), ih, parts, if_pos hm]
    case neg => rw [List.dropWhile_cons_of_neg (by simpa using hm)]

-- Behind the first item, the next one that is not deeper stands at the same level.
theorem Aligned.parts_least (h : Aligned (((k, n) :: ps).map (·.1)))
    (hd : Aligned ((ps.dropWhile (k < ·.1)).map (·.1))) :
    parts (least (ps.dropWhile (k < ·.1))) (ps.dropWhile (k < ·.1)) = parts k ps := by
  rw [← parts_dropWhile k ps]
  cases hq : ps.dropWhile (k < ·.1)
  case nil => rfl
  case cons q qs =>
    have hle : q.1 ≤ k := le_of_head?_dropWhile (by rw [hq]; rfl)
    have hm : q ∈ (k, n) :: ps :=
      List.mem_cons_of_mem _ ((List.dropWhile_suffix _).mem (hq ▸ List.mem_cons_self))
    have hge : k ≤ q.1 := h.least_eq ▸ (least_spec (List.cons_ne_nil _ ps)).right q hm
    rw [hq] at hd
    rw [hd.least_eq, Nat.le_antisymm hle hge]

theorem hung_of_aligned (h : Aligned (ps.map (·.1))) : hung ps = placed ps none := by
  induction ps using before_induction
  case nil => rw [placed_nil, hung_of_before_eq_nil rfl]; rfl
  case cons k n ps ihb ihd =>
    have hk : ∀ x ∈ (before k ps).map (·.1), k < x :=
      List.forall_mem_map.mpr fun p => deeper_of_mem_before
    have hy : ∀ x ∈ k :: (before k ps).map (·.1),
        ∀ y ∈ ((ps.dropWhile (k < ·.1)).map (·.1)).head?, y ≤ x :=
      List.forall_mem_cons.mpr ⟨fun y => le_of_head?_dropWhile, fun x hx y hm =>
        Nat.le_trans (le_of_head?_dropWhile hm) (Nat.le_of_lt (hk x hx))⟩
    have ha : Aligned (k :: (before k ps).map (·.1) ++ (ps.dropWhile (k < ·.1)).map (·.1)) := by
      rwa [List.cons_append, map_before_append]
    have hr := ihd (ha.right hy)
    rw [hung_of_before_eq_nil (before_of_aligned (ha.right hy)), h.parts_least (ha.right hy)] at hr
    rw [hung_of_before_eq_nil (before_of_aligned h), h.least_eq, parts_margin, List.map_cons, hr,
      ihb (ha.left.tail hk), placed_before]

-- The tree that is read from aligned items is their outline.
theorem outlined_of_aligned (hn : ps ≠ []) (h : Aligned (ps.map (·.1))) :
    outlined (least ps) ps = node [] (placed ps none) := by
  rw [outlined_of_before_eq_nil hn (before_of_aligned h), hung_of_aligned h]

end DocPress.Tree
