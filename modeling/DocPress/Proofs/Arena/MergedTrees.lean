import Mathlib.Data.List.Pairwise
import DocPress.Proofs.Arena.Merging

-- What the trees of a merge say together. Every entry that is not empty is the entry of exactly one
-- node, and the root of one tree is found in no other tree.

namespace DocPress

open Tree Arena Relation

variable {entries : List (Text × List Text)} {roots is : List Nat} {m : Merge} {r r' : Nat}

namespace Arena.Merge

-- The live roots with something below them.
def result (m : Merge) (roots : List Nat) : List Nat :=
  roots.filter fun i => i ∉ m.consumed ∧ m.arena.children i ≠ []

theorem result_eq_filter_live (m : Merge) (roots : List Nat) :
    m.result roots = (m.live roots).filter (m.arena.children · ≠ []) := by
  rw [result, live, List.filter_filter]
  apply List.filter_congr
  intro i _
  simp [Bool.and_comm]

theorem mem_result_iff :
    r ∈ m.result roots ↔ r ∈ roots ∧ r ∉ m.consumed ∧ m.arena.children r ≠ [] := by
  simp [result]

namespace Sound

theorem toTree_eq (h : m.Sound entries roots) (hr : r ∈ roots) :
    ∃ us, m.arena.toTree r = .node (m.arena.name r) us ∧ prunedAll us = us ∧
      (m.arena.children r = [] ↔ us = []) := by
  have ⟨us, ht, hp⟩ := h.pruned r hr
  have ⟨_, _, hh, hn⟩ := h.stands hr
  have hc := hh.children_eq_nil_iff
  rw [← hh.toTree_eq_singleton hn, ht] at hc
  exact ⟨us, ht, hp, hc⟩

-- Roots without children have no entries.
theorem expandedAll_filter_children (h : m.Sound entries roots) (hs : is ⊆ roots) :
    expandedAll ((is.filter (m.arena.children · ≠ [])).map m.arena.toTree) =
      expandedAll (is.map m.arena.toTree) := by
  induction is
  case nil => rfl
  case cons r is ih =>
    have ⟨hr, hs⟩ := List.cons_subset.mp hs
    have ⟨us, ht, _, hc⟩ := h.toTree_eq hr
    by_cases hu : us = []
    case pos => simp [hc.mpr hu, hu, ht, entry, ← ih hs]
    case neg => simp [hc, hu, expandedAll, ← ih hs]

theorem expandedAll_result (h : m.Sound entries roots) :
    (expandedAll ((m.result roots).map m.arena.toTree)).Perm (entries.filter (·.2 ≠ [])) := by
  rw [result_eq_filter_live, h.expandedAll_filter_children (fun _ hr => (mem_live_iff.mp hr).left)]
  exact h.balanced

theorem data_toTree_of_mem (h : m.Sound entries roots) (hr : r ∈ m.result roots) :
    (m.arena.toTree r).data = m.arena.name r :=
  (h.stands (mem_result_iff.mp hr).left).data_toTree

theorem map_data_result (h : m.Sound entries roots) :
    ((m.result roots).map m.arena.toTree).map data = (m.result roots).map m.arena.name := by
  rw [List.map_map]
  exact List.map_congr_left fun r hr => h.data_toTree_of_mem hr

theorem sublist_names (h : m.Sound entries roots) :
    ((m.result roots).map m.arena.name).Sublist (entries.map (·.1)) :=
  h.names ▸ List.filter_sublist.map _

theorem name_mem_expanded (h : m.Sound entries roots) (hr : r ∈ m.result roots) :
    m.arena.name r ∈ (m.arena.toTree r).expanded.map (·.1) := by
  have ⟨hm, _, hc⟩ := mem_result_iff.mp hr
  have ⟨us, ht, _, hu⟩ := h.toTree_eq hm
  rw [ht, expanded, entry_eq_of_ne_nil (hu.not.mp hc)]
  simp

-- A returned root has an entry of its own in its tree, so no other tree can hold one for its name.
theorem fst_not_mem_expanded (h : m.Sound entries roots) (hk : (entries.map (·.1)).Nodup)
    (hr : r ∈ m.result roots) (hr' : r' ∈ m.result roots) (hne : r ≠ r') :
    m.arena.name r ∉ (m.arena.toTree r').expanded.map (·.1) := by
  have hn : ((expandedAll ((m.result roots).map m.arena.toTree)).map (·.1)).Nodup :=
    (h.expandedAll_result.map _).nodup_iff.mpr (hk.sublist (List.filter_sublist.map _))
  rw [expandedAll_eq_flatMap, List.flatMap_map, List.map_flatMap, List.nodup_flatMap] at hn
  have : Std.Symm (Function.onFun List.Disjoint fun r => (m.arena.toTree r).expanded.map (·.1)) :=
    ⟨fun _ _ h _ h₁ h₂ => h h₂ h₁⟩
  exact hn.right.forall hr hr' hne (h.name_mem_expanded hr)

theorem name_not_mem_names (h : m.Sound entries roots) (hk : (entries.map (·.1)).Nodup)
    (hr : r ∈ m.result roots) (hr' : r' ∈ m.result roots) (hne : r ≠ r')
    (hset : m.Settled roots r') : m.arena.name r ∉ (m.arena.toTree r').names := by
  have ⟨hm, hc, _⟩ := mem_result_iff.mp hr
  have ⟨hm', _, _⟩ := mem_result_iff.mp hr'
  have ⟨us, ht, hp, _⟩ := h.toTree_eq hm'
  have he := h.fst_not_mem_expanded hk hr hr' hne
  have hl := hset r (mem_live_iff.mpr ⟨hm, hc⟩) hne
  rw [ht] at he hl ⊢
  intro hn
  cases List.mem_cons.mp hn
  case inl hn => exact hne (h.inj_name hk hm hm' hn)
  case inr hn =>
    cases mem_namesAll_of_pruned hp hn
    case inr hn => exact hl hn
    case inl hn =>
      rw [expanded, List.map_append] at he
      exact he (List.mem_append_right _ hn)

end Sound

theorem mergeTrees_spec (entries : List (Text × List Text)) :
    ∃ (roots : List Nat) (m : Merge), m.Sound entries roots ∧
      mergeTrees entries = (m.result roots).map m.arena.toTree ∧
      ((entries.map (·.1)).Nodup → ∀ r ∈ m.live roots, m.Settled roots r) := by
  have h := sound_insertStubs entries
  refine ⟨_, _, h.foldl_step (List.Subset.refl _), rfl, fun hk r hr => ?_⟩
  exact h.settled_foldl_step hk (List.Subset.refl _) (mem_live_iff.mp hr).left
    (.inl (mem_live_iff.mp hr).left) hr

end Arena.Merge

-- What is known of the trees of a merge when the names of the entries are distinct.
structure Merged (entries : List (Text × List Text)) (ts : List Tree) : Prop where
  balanced : (expandedAll ts).Perm (entries.filter (·.2 ≠ []))
  sublist  : (ts.map data).Sublist (entries.map (·.1))
  apart    : ts.Pairwise fun t u => t.data ∉ u.names ∧ u.data ∉ t.names
  rooted   : ∀ t ∈ ts, ∃ us, us ≠ [] ∧ t = node t.data us ∧ prunedAll us = us

theorem merged_mergeTrees (hk : (entries.map (·.1)).Nodup) :
    Merged entries (mergeTrees entries) := by
  have ⟨roots, m, h, ht, hset⟩ := Arena.Merge.mergeTrees_spec entries
  have hset : ∀ r ∈ m.result roots, m.Settled roots r := fun r hr =>
    have ⟨hm, hc, _⟩ := Arena.Merge.mem_result_iff.mp hr
    hset hk r (Arena.Merge.mem_live_iff.mpr ⟨hm, hc⟩)
  rw [ht]
  refine ⟨h.expandedAll_result, h.map_data_result ▸ h.sublist_names, ?apart, ?rooted⟩
  case apart =>
    have hn : (m.result roots).Nodup := h.nodup.filter _
    apply List.pairwise_map.mpr
    apply hn.imp_of_mem
    intro r r' hr hr' hne
    rw [h.data_toTree_of_mem hr, h.data_toTree_of_mem hr']
    exact ⟨h.name_not_mem_names hk hr hr' hne (hset r' hr'),
      h.name_not_mem_names hk hr' hr hne.symm (hset r hr)⟩
  case rooted =>
    intro t ht
    have ⟨r, hr, hrt⟩ := List.mem_map.mp ht
    have ⟨hm, _, hc⟩ := Arena.Merge.mem_result_iff.mp hr
    have ⟨us, he, hp, hu⟩ := h.toTree_eq hm
    rw [← hrt, h.data_toTree_of_mem hr]
    exact ⟨us, hu.not.mp hc, he, hp⟩

namespace Merged

variable {ts : List Tree} {t u : Tree} {e : Text × List Text}

theorem mem_expandedAll_iff (h : Merged entries ts) :
    e ∈ expandedAll ts ↔ e ∈ entries ∧ e.2 ≠ [] := by
  simp [h.balanced.mem_iff]

-- A root has an entry in its own tree.
theorem exists_entry (h : Merged entries ts) (ht : t ∈ ts) :
    ∃ e ∈ t.expanded, e.1 = t.data := by
  have ⟨us, hu, he, _⟩ := h.rooted t ht
  rw [he, expanded, entry_eq_of_ne_nil hu]
  exact ⟨_, List.mem_append_left _ List.mem_cons_self, rfl⟩

-- A name that no entry lists can only be found at a root.
theorem mem_map_data (h : Merged entries ts) (he : e ∈ entries) (hne : e.2 ≠ [])
    (hu : ∀ d ∈ entries, e.1 ∉ d.2) : e.1 ∈ ts.map data := by
  have hm := fst_mem_namesAll (h.mem_expandedAll_iff.mpr ⟨he, hne⟩)
  apply (mem_namesAll_iff.mp hm).resolve_right
  intro ⟨d, hd, hl⟩
  exact hu d (h.mem_expandedAll_iff.mp hd).left hl

-- The entry that lists a root is found in the tree of that root, and so the root reaches itself.
theorem not_listed (h : Merged entries ts) (ha : ¬TransGen (Lists entries) t.data t.data)
    (ht : t ∈ ts) (he : e ∈ entries) : t.data ∉ e.2 := by
  intro hl
  have hm := h.mem_expandedAll_iff.mpr ⟨he, List.ne_nil_of_mem hl⟩
  rw [expandedAll_eq_flatMap] at hm
  have ⟨u, hu, hm⟩ := List.mem_flatMap.mp hm
  have hut : u.data = t.data := by
    have : Std.Symm fun t u : Tree => t.data ∉ u.names ∧ u.data ∉ t.names := ⟨fun _ _ => And.symm⟩
    by_contra hne
    exact (h.apart.forall ht hu (fun h => hne (h ▸ rfl))).left (mem_names_of_mem_expanded hm hl)
  have hs : u.expanded ⊆ entries := fun d hd =>
    (h.mem_expandedAll_iff.mp (mem_expandedAll_of_mem hu hd)).left
  have hr := reaches_of_mem_expanded hs hm
  rw [hut] at hr
  exact ha (.tail' hr ⟨e, he, rfl, hl⟩)

end Merged

theorem filter_mem_of_sublist {xs zs : List Text} (hn : zs.Nodup) (h : xs.Sublist zs) :
    zs.filter (· ∈ xs) = xs := by
  have hx : xs.filter (· ∈ xs) = xs := List.filter_eq_self.mpr (by simp)
  have hs : xs.Sublist (zs.filter (· ∈ xs)) := by
    have h := h.filter (· ∈ xs)
    rwa [hx] at h
  have hp : xs.Perm (zs.filter (· ∈ xs)) := by
    apply (List.perm_ext_iff_of_nodup (hn.sublist h) (hn.filter _)).mpr
    intro n
    simpa using fun hm => h.subset hm
  exact (hs.eq_of_length hp.length_eq).symm

-- Merging is complete. The names of the trees are keys in the order of the entries, no tree holds
-- the name of another one, and without cycles the trees are those of the keys that no entry lists.
theorem mergeTrees_complete (entries : List (Text × List Text)) (hk : (entries.map (·.1)).Nodup) :
    ((mergeTrees entries).map data).Sublist (entries.map (·.1)) ∧
    (mergeTrees entries).Pairwise (fun t u => t.data ∉ u.names ∧ u.data ∉ t.names) ∧
    ((∀ n ∈ entries.map (·.1), ¬TransGen (Lists entries) n n) →
      (mergeTrees entries).map data =
        (entries.filter fun e => e.2 ≠ [] ∧ ∀ d ∈ entries, e.1 ∉ d.2).map (·.1)) := by
  have h := merged_mergeTrees hk
  refine ⟨h.sublist, h.apart, fun ha => ?_⟩
  have hs := List.filter_sublist (p := fun e => e.2 ≠ [] ∧ ∀ d ∈ entries, e.1 ∉ d.2) (l := entries)
  rw [← filter_mem_of_sublist hk h.sublist, ← filter_mem_of_sublist hk (hs.map _)]
  apply List.filter_congr
  intro n hn
  refine decide_eq_decide.mpr ⟨fun hm => ?_, fun hm => ?_⟩
  · have ⟨t, ht, he⟩ := List.mem_map.mp hm
    have ⟨e, hte, het⟩ := h.exists_entry ht
    have ⟨hm, hne⟩ := h.mem_expandedAll_iff.mp (mem_expandedAll_of_mem ht hte)
    rw [← he]
    have ha := ha t.data (h.sublist.subset (List.mem_map_of_mem ht))
    have hu : ∀ d ∈ entries, e.1 ∉ d.2 := fun d hd => het ▸ h.not_listed ha ht hd
    exact List.mem_map.mpr ⟨e, List.mem_filter.mpr ⟨hm, decide_eq_true ⟨hne, hu⟩⟩, het⟩
  · simp only [List.mem_map, List.mem_filter, decide_eq_true_eq] at hm
    have ⟨e, ⟨he, hne, hu⟩, hen⟩ := hm
    exact hen ▸ h.mem_map_data he hne hu

theorem mergeTrees_complete_chain :
    let entries := [(['a'], [['a', 'b']]), (['a', 'b'], [['a', 'b', 'c']])]
    (entries.map (·.1)).Nodup ∧ (∀ n ∈ entries.map (·.1), ¬TransGen (Lists entries) n n) ∧
      (mergeTrees entries).map data = [['a']] := by
  intro entries
  have hk : (entries.map (·.1)).Nodup := by decide
  have hl : ∀ n k, Lists entries n k → n.length < k.length := by
    intro n k ⟨e, he, hn, hk⟩
    have : ∀ e ∈ entries, ∀ k ∈ e.2, e.1.length < k.length := by decide
    exact hn ▸ this e he k hk
  have ha : ∀ n ∈ entries.map (·.1), ¬TransGen (Lists entries) n n := by
    intro n _ h
    have h := h.lift List.length hl
    rw [transGen_eq_self] at h
    exact Nat.lt_irrefl _ h
  exact ⟨hk, ha, (mergeTrees_complete entries hk).right.right ha⟩

-- Merging loses nothing and makes nothing up. The nodes with children in all trees together, each
-- with the names of its children, are the entries that list any names.
theorem expandedAll_mergeTrees_perm (entries : List (Text × List Text)) :
    (expandedAll (mergeTrees entries)).Perm (entries.filter (·.2 ≠ [])) := by
  have ⟨_, _, h, ht, _⟩ := Arena.Merge.mergeTrees_spec entries
  rw [ht]
  exact h.expandedAll_result

end DocPress
