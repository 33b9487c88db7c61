import Mathlib.Order.WellFoundedSet
import DocPress.Proofs.Arena.MergedTrees

-- Where every key hangs below one node at most, nothing is taken away from one tree by another, and
-- merging is recursion along the entries.

namespace DocPress

open Tree Relation

-- The names that a key lists. Other names list none.
def namesOf (entries : List (Text × List Text)) (k : Text) : List Text :=
  (entries.lookup k).getD []

-- Names are compared as texts.
local instance : LawfulBEq Text := inferInstance

-- The entries that list any names and that no entry leads down to.
def tops (entries : List (Text × List Text)) : List (Text × List Text) :=
  entries.filter fun e => e.2 ≠ [] ∧ ∀ d ∈ entries, e.1 ∉ d.2

-- Entries with distinct keys that do not lead back to themselves.
structure Hierarchy (entries : List (Text × List Text)) : Prop where
  nodup   : (entries.map (·.1)).Nodup
  acyclic : ∀ n ∈ entries.map (·.1), ¬TransGen (Lists entries) n n

variable {entries entries' : List (Text × List Text)} {k n : Text} {ns : List Text}
  {e : Text × List Text} {ts us : List Tree}

theorem namesOf_of_mem (hk : (entries.map (·.1)).Nodup) (h : (k, ns) ∈ entries) :
    namesOf entries k = ns := by
  rw [namesOf, NameMap.lookup_of_mem hk h, Option.getD_some]

theorem mem_of_namesOf_ne_nil (h : namesOf entries k ≠ []) : (k, namesOf entries k) ∈ entries := by
  cases hl : entries.lookup k
  case none    => simp [namesOf, hl] at h
  case some ns => simpa [namesOf, hl] using NameMap.mem_of_lookup_eq_some hl

theorem lists_of_mem_namesOf (h : n ∈ namesOf entries k) : Lists entries k n :=
  ⟨_, mem_of_namesOf_ne_nil (List.ne_nil_of_mem h), rfl, h⟩

theorem mem_tops_iff : e ∈ tops entries ↔ e ∈ entries ∧ e.2 ≠ [] ∧ ∀ d ∈ entries, e.1 ∉ d.2 := by
  simp [tops]

theorem tops_sublist (entries : List (Text × List Text)) : (tops entries).Sublist entries :=
  List.filter_sublist

theorem tops_perm (hp : entries.Perm entries') : (tops entries).Perm (tops entries') := by
  simp only [tops, hp.mem_iff]
  exact hp.filter _

theorem flatMap_filter_ne_nil (entries : List (Text × List Text)) :
    (entries.filter (·.2 ≠ [])).flatMap (·.2) = entries.flatMap (·.2) := by
  induction entries
  case nil          => rfl
  case cons e es ih => by_cases he : e.2 = [] <;> simp_all

namespace Hierarchy

theorem not_transGen (h : Hierarchy entries) (n : Text) : ¬TransGen (Lists entries) n n := by
  intro hn
  have ⟨k, ⟨e, he, hk, _⟩, _⟩ := TransGen.head'_iff.mp hn
  exact h.acyclic n (hk ▸ List.mem_map_of_mem he) hn

-- There are only finitely many names to go down along.
theorem wellFounded (h : Hierarchy entries) : WellFounded fun n k => n ∈ namesOf entries k := by
  have : IsStrictOrder Text fun n k => TransGen (Lists entries) k n :=
    { irrefl := h.not_transGen, trans := fun _ _ _ hn hk => hk.trans hn }
  have hf := List.finite_toSet (entries.map (·.1) ++ entries.flatMap (·.2))
  refine Subrelation.wf ?_ <| Set.wellFoundedOn_iff.mp <|
    hf.wellFoundedOn (r := fun n k => TransGen (Lists entries) k n)
  intro n k hn
  have ⟨e, he, hk, hn⟩ := lists_of_mem_namesOf hn
  refine ⟨.single ⟨e, he, hk, hn⟩, ?_, ?_⟩
  · exact List.mem_append_right _ (List.mem_flatMap.mpr ⟨e, he, hn⟩)
  · exact List.mem_append_left _ (hk ▸ List.mem_map_of_mem he)

-- The tree of a name, which is a leaf if the name lists no others.
def unfold (h : Hierarchy entries) (k : Text) : Tree :=
  if namesOf entries k = [] then leaf k
  else node k ((namesOf entries k).attach.map fun ⟨n, _⟩ => h.unfold n)
termination_by h.wellFounded.wrap k
decreasing_by assumption

theorem unfold_eq (h : Hierarchy entries) (k : Text) :
    h.unfold k =
      if namesOf entries k = [] then leaf k else node k ((namesOf entries k).map h.unfold) := by
  rw [unfold, List.attach_map_val (f := h.unfold)]

theorem perm (h : Hierarchy entries) (hp : entries.Perm entries') : Hierarchy entries' where
  nodup   := (hp.map _).nodup_iff.mp h.nodup
  acyclic := by
    have hl : Lists entries' = Lists entries := by
      funext n k
      simp [Tree.Lists, hp.mem_iff]
    intro n _
    exact hl ▸ h.not_transGen n

theorem namesOf_perm (h : Hierarchy entries) (hp : entries.Perm entries') (k : Text) :
    namesOf entries' k = namesOf entries k := by
  by_cases hb : namesOf entries k = []
  case neg => exact namesOf_of_mem (h.perm hp).nodup (hp.mem_iff.mp (mem_of_namesOf_ne_nil hb))
  case pos =>
    by_contra hb'
    have hm := hp.mem_iff.mpr (mem_of_namesOf_ne_nil fun h => hb' (h.trans hb.symm))
    exact hb' (namesOf_of_mem h.nodup hm).symm

-- The order of the entries does not matter to the tree of a name.
theorem unfold_perm (h : Hierarchy entries) (hp : entries.Perm entries') (k : Text) :
    (h.perm hp).unfold k = h.unfold k := by
  induction k using h.wellFounded.induction
  case _ k ih => rw [unfold_eq, unfold_eq, h.namesOf_perm hp, List.map_congr_left ih]

end Hierarchy

namespace Merged

-- The roots are the keys at the top.
theorem map_data (h : Merged entries ts) (hh : Hierarchy entries) :
    ts.map data = (tops entries).map (·.1) := by
  rw [← filter_mem_of_sublist hh.nodup h.sublist,
    ← filter_mem_of_sublist hh.nodup ((tops_sublist entries).map (·.1))]
  refine List.filter_congr fun n _ => decide_eq_decide.mpr ⟨?mp, ?mpr⟩
  case mp =>
    intro hn
    have ⟨t, ht, hn⟩ := List.mem_map.mp hn
    have ⟨e, he, het⟩ := h.exists_entry ht
    have ⟨he, hne⟩ := h.mem_expandedAll_iff.mp (mem_expandedAll_of_mem ht he)
    have hu : ∀ d ∈ entries, e.1 ∉ d.2 := fun d hd =>
      het ▸ h.not_listed (hh.not_transGen t.data) ht hd
    exact List.mem_map.mpr ⟨e, mem_tops_iff.mpr ⟨he, hne, hu⟩, het.trans hn⟩
  case mpr =>
    intro hn
    have ⟨e, he, hn⟩ := List.mem_map.mp hn
    have ⟨he, hne, hu⟩ := mem_tops_iff.mp he
    exact hn ▸ h.mem_map_data he hne hu

theorem prunedAll_eq_self (h : Merged entries ts) : prunedAll ts = ts := by
  rw [prunedAll_eq_map]
  refine (List.map_congr_left fun t ht => ?_).trans ts.map_id
  have ⟨us, hu, he, hp⟩ := h.rooted t ht
  rw [he, pruned_node hu, hp, id]

theorem count_listed (h : Merged entries ts) (n : Text) :
    ((expandedAll ts).flatMap (·.2)).count n = (entries.flatMap (·.2)).count n := by
  rw [(h.balanced.flatMap_right (·.2)).count_eq, flatMap_filter_ne_nil]

-- A key with something below it has an entry, and so a node with children. At a leaf it would be
-- found once more, so it would be a root that is listed.
theorem namesOf_eq_nil_of_mem_leavesAll (h : Merged entries ts) (hh : Hierarchy entries)
    (ho : ∀ n ∈ entries.map (·.1), (entries.flatMap (·.2)).count n ≤ 1) (hn : n ∈ leavesAll ts) :
    namesOf entries n = [] := by
  by_contra hb
  have he := mem_of_namesOf_ne_nil hb
  have hx : n ∈ (expandedAll ts).map (·.1) :=
    List.mem_map_of_mem (h.mem_expandedAll_iff.mpr ⟨he, hb⟩)
  rw [← List.one_le_count_iff] at hn hx
  have hc := (count_namesAll n ts).symm.trans (count_namesAll_of_pruned h.prunedAll_eq_self n)
  rw [h.count_listed] at hc
  have hd : (ts.map data).count n ≤ 1 :=
    List.nodup_iff_count_le_one.mp (hh.nodup.sublist h.sublist) n
  have ho := ho n (List.mem_map_of_mem he)
  have hr : n ∈ ts.map data := List.one_le_count_iff.mp (by omega)
  have hl : n ∈ entries.flatMap (·.2) := List.one_le_count_iff.mp (by omega)
  have ⟨t, ht, hr⟩ := List.mem_map.mp hr
  have ⟨e, he, hl⟩ := List.mem_flatMap.mp hl
  exact h.not_listed (hh.not_transGen t.data) ht he (hr ▸ hl)

end Merged

-- Nothing but the names at the leaves is needed to know a forest by its entries.
theorem Hierarchy.eq_map_unfold (h : Hierarchy entries) (hp : prunedAll ts = ts)
    (hs : expandedAll ts ⊆ entries) (hl : ∀ n ∈ leavesAll ts, namesOf entries n = []) :
    ts = (ts.map data).map h.unfold := by
  induction ts using forestInduction
  case nil => rfl
  case leaf d ts ih =>
    simp only [prunedAll, pruned, List.cons.injEq, true_and] at hp
    simp only [leavesAll, leaves, List.singleton_append, List.forall_mem_cons] at hl
    have hd : h.unfold d = leaf d := by rw [unfold_eq, if_pos hl.left]
    simpa [data, hd] using ih hp hs hl.right
  case node d us ts ihu iht =>
    have hu : us ≠ [] := fun hu => by simp [hu, prunedAll, pruned] at hp
    simp only [prunedAll, pruned_node hu, List.cons.injEq, node.injEq, true_and] at hp
    simp only [leavesAll, leaves, List.forall_mem_append] at hl
    simp only [expandedAll_node_cons, entry_eq_of_ne_nil hu, List.append_subset] at hs
    obtain ⟨he, hsu, hst⟩ := hs
    have hb : namesOf entries d = us.map data := namesOf_of_mem h.nodup (he List.mem_cons_self)
    have hd : h.unfold d = node d us := by
      rw [unfold_eq, hb, if_neg (by simpa using hu), ← ihu hp.left hsu hl.left]
    simpa [data, hd] using iht hp.right hst hl.right

theorem Hierarchy.mergeTrees_eq (h : Hierarchy entries)
    (ho : ∀ n ∈ entries.map (·.1), (entries.flatMap (·.2)).count n ≤ 1) :
    mergeTrees entries = (tops entries).map (h.unfold ·.1) := by
  have hm := merged_mergeTrees h.nodup
  have hs : expandedAll (mergeTrees entries) ⊆ entries := fun e he =>
    (hm.mem_expandedAll_iff.mp he).left
  have ht := h.eq_map_unfold hm.prunedAll_eq_self hs fun n hn =>
    hm.namesOf_eq_nil_of_mem_leavesAll h ho hn
  rwa [hm.map_data h, List.map_map] at ht

-- Merging unfolds the keys at the top, in the order of the entries. In another order they make the
-- same trees.
theorem mergeTrees_unfold (h : Hierarchy entries)
    (ho : ∀ n ∈ entries.map (·.1), (entries.flatMap (·.2)).count n ≤ 1) :
    mergeTrees entries = (tops entries).map (h.unfold ·.1) ∧
    ∀ entries', entries.Perm entries' → (mergeTrees entries').Perm (mergeTrees entries) := by
  refine ⟨h.mergeTrees_eq ho, fun entries' hp => ?_⟩
  have ho' : ∀ n ∈ entries'.map (·.1), (entries'.flatMap (·.2)).count n ≤ 1 := by
    intro n hn
    rw [← (hp.flatMap_right (·.2)).count_eq]
    exact ho n ((hp.map _).mem_iff.mpr hn)
  rw [(h.perm hp).mergeTrees_eq ho', h.mergeTrees_eq ho]
  simp only [h.unfold_perm hp]
  exact (tops_perm hp.symm).map _

theorem mergeTrees_unfold_levels :
    let entries : List (Text × List Text) :=
      [("ab", ["abc", "xyz"]), ("q", []), ("a", ["ab", "xyz", "xyz"]), ("b", ["xyz"])]
    Hierarchy entries ∧ (∀ n ∈ entries.map (·.1), (entries.flatMap (·.2)).count n ≤ 1) ∧
      mergeTrees entries =
        [node "a" [node "ab" [leaf "abc", leaf "xyz"], leaf "xyz", leaf "xyz"],
          node "b" [leaf "xyz"]] ∧
      (mergeTrees entries.reverse).Perm (mergeTrees entries) := by
  intro entries
  have hl : ∀ n k, Lists entries n k → n.length < k.length := by
    intro n k ⟨e, he, hn, hk⟩
    have : ∀ e ∈ entries, ∀ k ∈ e.2, e.1.length < k.length := by decide
    exact hn ▸ this e he k hk
  have ha : ∀ n ∈ entries.map (·.1), ¬TransGen (Lists entries) n n := by
    intro n _ h
    have h := h.lift List.length hl
    rw [transGen_eq_self] at h
    exact Nat.lt_irrefl _ h
  have h : Hierarchy entries := ⟨by decide, ha⟩
  have ho : ∀ n ∈ entries.map (·.1), (entries.flatMap (·.2)).count n ≤ 1 := by decide
  have ⟨ht, hp⟩ := mergeTrees_unfold h ho
  refine ⟨h, ho, ht.trans ?_, hp _ entries.reverse_perm.symm⟩
  simp [entries, tops, h.unfold_eq, namesOf, List.lookup_cons]

end DocPress
