import DocPress.Arena.Merge
import DocPress.Proofs.Arena.Expansion

-- The state of a merge. Its trees together always hold every entry exactly once, and the tree of a
-- root that has had its turn carries no other root as a leaf.

namespace DocPress.Arena

open Tree

-- The root with leaves that an entry starts as.
def stub (e : Text × List Text) : Tree :=
  .node e.1 (e.2.map .leaf)

namespace Merge

-- The roots that have not been consumed.
def live (m : Merge) (roots : List Nat) : List Nat :=
  roots.filter (· ∉ m.consumed)

-- The other live roots under their names.
def pending (m : Merge) (roots : List Nat) (r : Nat) : NameMap Nat :=
  .ofList ((roots.filter fun i => i ≠ r ∧ i ∉ m.consumed).map fun i => (m.arena.name i, i))

-- The trees of the roots have no nodes in common and begin with the names of the entries; below
-- its root every tree is pruned; and the trees of the live roots hold every entry that is not
-- empty once.
structure Sound (entries : List (Text × List Text)) (roots : List Nat) (m : Merge) : Prop where
  held     : ∃ js, Holds m.arena roots (roots.map m.arena.toTree) js ∧ js.Nodup
  names    : roots.map m.arena.name = entries.map (·.1)
  pruned   : ∀ r ∈ roots, ∃ us, m.arena.toTree r = .node (m.arena.name r) us ∧ prunedAll us = us
  balanced : (expandedAll ((m.live roots).map m.arena.toTree)).Perm (entries.filter (·.2 ≠ []))

-- The tree of a root has none of the other roots left that it could be expanded by.
def Settled (roots : List Nat) (m : Merge) (r : Nat) : Prop :=
  ∀ r' ∈ m.live roots, r' ≠ r → m.arena.name r' ∉ (m.arena.toTree r).leaves

end Merge

variable {a b : Arena} {entries : List (Text × List Text)} {roots is : List Nat} {m : Merge}
  {r r' s i : Nat} {d : Text} {t u : Tree}

theorem insertStubs_stored (entries : List (Text × List Text)) (a : Arena) :
    ∃ js, Stored a (insertStubs entries a).2 (insertStubs entries a).1 (entries.map stub) js := by
  induction entries generalizing a
  case nil => exact ⟨_, .nil a⟩
  case cons e entries ih =>
    have ⟨_, h⟩ := insertTree_stored (stub e) a
    have ⟨_, h'⟩ := ih (insertTree (stub e) a).2
    exact ⟨_, h.cons h'⟩

theorem expandedAll_map_leaf (ns : List Text) : expandedAll (ns.map leaf) = [] := by
  induction ns <;> simp_all

theorem prunedAll_map_leaf (ns : List Text) : prunedAll (ns.map leaf) = ns.map leaf := by
  induction ns <;> simp_all [prunedAll, Tree.pruned]

theorem expandedAll_map_stub (entries : List (Text × List Text)) :
    expandedAll (entries.map stub) = entries.filter (·.2 ≠ []) := by
  induction entries
  case nil => rfl
  case cons e entries ih =>
    have hd : data ∘ leaf = id := rfl
    simp only [List.map_cons, stub, expandedAll_node_cons, expandedAll_map_leaf, List.nil_append]
    by_cases he : e.2 = [] <;> simpa [entry, he, hd] using ih

theorem sound_insertStubs (entries : List (Text × List Text)) :
    Merge.Sound entries (insertStubs entries empty).1
      { arena := (insertStubs entries empty).2 } := by
  have ⟨js, h⟩ := insertStubs_stored entries empty
  have ht := h.holds.toTree_eq h.nodup
  have hn := h.holds.map_data
  exact {
    held     := ⟨js, ht.symm ▸ h.holds, h.nodup⟩
    names    := by rw [← hn, List.map_map]; rfl
    pruned   := fun r hr => by
      have ⟨_, _, hs, hk⟩ := h.holds.of_mem hr
      have hs : Stands _ r := ⟨_, _, hs, h.nodup.sublist hk⟩
      have hm : (insertStubs entries empty).2.toTree r ∈ entries.map stub :=
        ht ▸ List.mem_map_of_mem hr
      have ⟨e, _, he⟩ := List.mem_map.mp hm
      exact ⟨_, by rw [← hs.data_toTree, ← he]; rfl, prunedAll_map_leaf e.2⟩
    balanced := by simp [Merge.live, ht, expandedAll_map_stub]
  }

-- The trees of two roots become one.
theorem expandedAll_map_erase {T T' : Nat → Tree} (hn : is.Nodup) (hr : r ∈ is) (hs : s ∈ is)
    (hrs : r ≠ s) (hT : ∀ i ∈ is, i ≠ r → T' i = T i)
    (hp : (T' r).expanded.Perm ((T s).expanded ++ (T r).expanded)) :
    (expandedAll ((is.erase s).map T')).Perm (expandedAll (is.map T)) := by
  have hr : r ∈ is.erase s := (List.mem_erase_of_ne hrs).mpr hr
  have h₁ := List.perm_cons_erase hs
  have h₂ := List.perm_cons_erase hr
  have hT : ((is.erase s).erase r).map T' = ((is.erase s).erase r).map T := by
    apply List.map_congr_left
    intro i hi
    apply hT
    · exact List.mem_of_mem_erase (List.mem_of_mem_erase hi)
    · rintro rfl
      exact (hn.erase s).not_mem_erase hi
  apply (expandedAll_perm (h₂.map T')).trans
  refine .trans ?_ (expandedAll_perm ((h₁.trans (h₂.cons s)).map T)).symm
  simp only [List.map_cons, hT, expandedAll, ← List.append_assoc]
  exact hp.append_right _

namespace Merge.Sound

theorem stands (h : m.Sound entries roots) (hr : r ∈ roots) : Stands m.arena r := by
  have ⟨_, hh, hn⟩ := h.held
  have ⟨t, ks, ht, hs⟩ := hh.of_mem hr
  exact ⟨t, ks, ht, hn.sublist hs⟩

theorem nodup (h : m.Sound entries roots) : roots.Nodup :=
  have ⟨_, hh, hn⟩ := h.held
  hn.sublist hh.sublist

theorem live_nodup (h : m.Sound entries roots) : (m.live roots).Nodup :=
  h.nodup.filter _

-- The tree of one root is expanded by the tree of another one.
theorem splice (h : m.Sound entries roots) (hr : r ∈ m.live roots) (hs : s ∈ m.live roots)
    (hrs : r ≠ s) (hi : i ∈ m.arena.openNodes r) (hn : m.arena.name i = m.arena.name s) :
    Sound entries roots ⟨m.arena.graft i s, m.consumed ++ [s]⟩ ∧
      ∀ r' ∈ roots, r' ≠ r → (m.arena.graft i s).toTree r' = m.arena.toTree r' := by
  have hr' := List.mem_of_mem_filter hr
  have hs' := List.mem_of_mem_filter hs
  have hsr := h.stands hr'
  have hss := h.stands hs'
  have ⟨js, hh, hnj⟩ := h.held
  have hT : ∀ r' ∈ roots, r' ≠ r → (m.arena.graft i s).toTree r' = m.arena.toTree r' :=
    fun r' hm hne => hh.toTree_graft_of_ne hnj hr' hm hne hi
  have g := hsr.graft_toTree hss hi
  rw [hn, ← hss.data_toTree, rename_data_pruned] at g
  have hname : ∀ r' ∈ roots, (m.arena.graft i s).name r' = m.arena.name r' := fun r' hm =>
    name_graft (h.stands hm).lt_size
  refine ⟨⟨?held, ?names, ?pruned, ?balanced⟩, hT⟩
  case held =>
    have ⟨_, ks, hk, hks⟩ := hh.of_mem hr'
    have hi' := hi
    rw [hk.openNodes_eq (hnj.sublist hks)] at hi'
    have hij := hks.subset (List.mem_filter.mp hi').left
    have ⟨_, _, hks, hn⟩ := hss
    have ⟨ts', js', h', hn', _, _⟩ :=
      hh.graft_mem hnj hij (hsr.entry_of_mem_openNodes hi) hks hn
    exact ⟨js', (h'.toTree_eq hn').symm ▸ h', hn'⟩
  case names => rw [List.map_congr_left hname, h.names]
  case pruned =>
    intro r' hm
    have ⟨us, ht, hp⟩ := h.pruned r' hm
    by_cases hrr : r' = r
    case neg => exact ⟨us, by rw [hT r' hm hrr, hname r' hm, ht], hp⟩
    case pos =>
      subst hrr
      rw [ht] at g
      have ⟨us', ht', g⟩ := g.of_node
      exact ⟨us', by rw [ht', hname r' hm], g.prunedAll_eq (pruned_pruned _) hp⟩
  case balanced =>
    have hl : Merge.live ⟨m.arena.graft i s, m.consumed ++ [s]⟩ roots = (m.live roots).erase s := by
      rw [(h.live_nodup).erase_eq_filter, live, live, List.filter_filter]
      apply List.filter_congr
      intro x _
      by_cases hx : x = s <;> simp [hx]
    have hp : ((m.arena.graft i s).toTree r).expanded.Perm
        ((m.arena.toTree s).expanded ++ (m.arena.toTree r).expanded) := by
      simpa [expandedAll, expanded_pruned] using g.expandedAll_perm (data_pruned _)
    rw [hl]
    refine .trans ?_ h.balanced
    exact expandedAll_map_erase h.live_nodup hr hs hrs
      (fun r' hm => hT r' (List.mem_of_mem_filter hm)) hp

end Merge.Sound

namespace Merge

theorem mem_live_iff : r ∈ m.live roots ↔ r ∈ roots ∧ r ∉ m.consumed := by
  simp [live]

theorem of_find?_pending (h : (m.pending roots r).find? k = some s) :
    s ∈ m.live roots ∧ s ≠ r ∧ m.arena.name s = k := by
  have h := NameMap.mem_of_find?_ofList h
  simp only [List.mem_map, List.mem_filter, decide_eq_true_eq, Prod.mk.injEq] at h
  have ⟨_, ⟨hm, hr, hc⟩, hk, hs⟩ := h
  subst hs
  exact ⟨mem_live_iff.mpr ⟨hm, hc⟩, hr, hk⟩

theorem find?_pending_ne_none (hs : s ∈ m.live roots) (hr : s ≠ r) :
    (m.pending roots r).find? (m.arena.name s) ≠ none := by
  have ⟨hs, hc⟩ := mem_live_iff.mp hs
  exact NameMap.find?_ofList_ne_none (List.mem_map.mpr ⟨s, by simp [hs, hr, hc], rfl⟩)

theorem step_of_mem (hc : r ∈ m.consumed) : m.step roots r = m :=
  if_pos hc

theorem step_of_not_mem (hc : r ∉ m.consumed) :
    m.step roots r =
      ⟨(m.arena.expand r (m.pending roots r)).arena,
        m.consumed ++ (m.arena.expand r (m.pending roots r)).spliced⟩ :=
  if_neg hc

theorem Sound.ready (h : m.Sound entries roots) (hr : r ∈ roots) :
    Ready m.arena r (m.pending roots r) where
  root    := h.stands hr
  pending := fun _ _ hk => h.stands (mem_live_iff.mp (of_find?_pending hk).left).left

-- A run of splices below a live root, with the consumption of the roots that were spliced.
theorem Sound.run (h : m.Sound entries roots) (hr : r ∈ m.live roots)
    (rn : Run r (m.pending roots r) m.arena done b) :
    Sound entries roots ⟨b, m.consumed ++ done.map (·.2)⟩ ∧
      ∀ r' ∈ roots, r' ≠ r → b.toTree r' = m.arena.toTree r' := by
  have ⟨hr, hc⟩ := mem_live_iff.mp hr
  induction rn
  case refl => exact ⟨by simpa using h, fun _ _ _ => rfl⟩
  case step done b i e rn al ih =>
    have ⟨hb, hT⟩ := ih
    have ⟨hs, hsr, hk⟩ := of_find?_pending al.found
    have ⟨hs, hsc⟩ := mem_live_iff.mp hs
    have hname : b.name e.2 = m.arena.name e.2 := rn.preserves_name (h.stands hs).lt_size
    have hrd : r ∉ done.map (·.2) := by
      intro hd
      have ⟨e', he, her⟩ := List.mem_map.mp hd
      exact (of_find?_pending (rn.found e' he)).right.left her
    have hsd : e.2 ∉ done.map (·.2) := by
      intro hd
      have ⟨e', he, hes⟩ := List.mem_map.mp hd
      have hk' := (of_find?_pending (rn.found e' he)).right.right
      apply al.fresh
      have hee : e'.1 = e.1 := by
        rw [← hk', ← hk]
        exact congrArg _ hes
      exact List.mem_map.mpr ⟨e', he, hee⟩
    have hlive : ∀ x ∈ roots, x ∉ m.consumed → x ∉ done.map (·.2) →
        x ∈ live ⟨b, m.consumed ++ done.map (·.2)⟩ roots := fun x hx hc hd =>
      mem_live_iff.mpr ⟨hx, List.mem_append.not.mpr (not_or.mpr ⟨hc, hd⟩)⟩
    have ⟨hb', hT'⟩ := hb.splice (hlive r hr hc hrd) (hlive e.2 hs hsc hsd) hsr.symm al.mem
      (by rw [al.name, hname, hk])
    refine ⟨by simpa using hb', fun r' hm hne => ?_⟩
    rw [hT' r' hm hne, hT r' hm hne]

theorem Sound.step (h : m.Sound entries roots) (hr : r ∈ roots) :
    (m.step roots r).Sound entries roots ∧
      ∀ r' ∈ roots, r' ≠ r → (m.step roots r).arena.toTree r' = m.arena.toTree r' := by
  by_cases hc : r ∈ m.consumed
  case pos => simpa [step_of_mem hc] using h
  case neg =>
    rw [step_of_not_mem hc]
    have ⟨done, he, _⟩ := expand_after (h.ready hr)
    have := h.run (mem_live_iff.mpr ⟨hr, hc⟩) he.run
    rwa [← he.spliced] at this

theorem Sound.foldl_step (h : m.Sound entries roots) (hs : is ⊆ roots) :
    (is.foldl (Merge.step roots) m).Sound entries roots := by
  induction is generalizing m
  case nil => exact h
  case cons r is ih =>
    have ⟨hr, hs⟩ := List.cons_subset.mp hs
    exact ih (h.step hr).left hs

theorem live_step_subset (m : Merge) (roots : List Nat) (r : Nat) :
    (m.step roots r).live roots ⊆ m.live roots := by
  intro x hx
  by_cases hc : r ∈ m.consumed
  case pos => rwa [step_of_mem hc] at hx
  case neg =>
    rw [step_of_not_mem hc] at hx
    have ⟨hx, hc⟩ := mem_live_iff.mp hx
    exact mem_live_iff.mpr ⟨hx, fun h => hc (List.mem_append_left _ h)⟩

theorem live_foldl_step_subset (m : Merge) (roots is : List Nat) :
    (is.foldl (Merge.step roots) m).live roots ⊆ m.live roots := by
  induction is generalizing m
  case nil          => exact List.Subset.refl _
  case cons r is ih => exact List.Subset.trans (ih _) (live_step_subset m roots r)

-- Distinct names belong to distinct roots.
theorem Sound.inj_name (h : m.Sound entries roots) (hk : (entries.map (·.1)).Nodup) (hr : r ∈ roots)
    (hs : s ∈ roots) (hn : m.arena.name r = m.arena.name s) : r = s :=
  List.inj_on_of_nodup_map (h.names ▸ hk) hr hs hn

theorem Sound.leaves_toTree (h : m.Sound entries roots) (hr : r ∈ roots) :
    (m.arena.toTree r).leaves = (m.arena.openNodes r).map m.arena.name := by
  have ⟨_, _, h, hn⟩ := h.stands hr
  rw [h.openNodes_eq hn, h.toTree_eq_singleton hn, h.map_name_filter_isOpen]
  simp [leavesAll]

-- After its turn a root that is left is settled.
theorem Sound.settled_step (h : m.Sound entries roots) (hk : (entries.map (·.1)).Nodup)
    (hr : r ∈ roots) (hc : r ∉ m.consumed) : (m.step roots r).Settled roots r := by
  have h' := (h.step hr).left
  intro s hs hsr hm
  have hs' := live_step_subset m roots r hs
  rw [h'.leaves_toTree hr] at hm
  have ⟨i, hi, hn⟩ := List.mem_map.mp hm
  rw [step_of_not_mem hc] at hs hi hn h'
  have ⟨done, he, hset⟩ := expand_after (h.ready hr)
  have ⟨hs, hsc⟩ := mem_live_iff.mp hs
  cases hset i hi
  case inl hir => exact hsr (h'.inj_name hk hs hr (hn.symm.trans hir))
  case inr hir =>
    have hname : (m.arena.expand r (m.pending roots r)).arena.name i = m.arena.name s :=
      hn.trans (he.run.preserves_name (h.stands hs).lt_size)
    rw [hname, he.find?_pending] at hir
    split at hir
    case isFalse => exact find?_pending_ne_none hs' hsr hir
    case isTrue hd =>
      have ⟨e, hed, hes⟩ := List.mem_map.mp hd
      have ⟨hel, _, hen⟩ := of_find?_pending (he.run.found e hed)
      have hes := h.inj_name hk (mem_live_iff.mp hel).left hs (hen.trans hes)
      apply hsc
      apply List.mem_append_right
      rw [he.spliced]
      exact List.mem_map.mpr ⟨e, hed, hes⟩

-- The turns of other roots leave a settled root settled.
theorem Sound.preserves_settled (h : m.Sound entries roots) (hr : r ∈ roots) (hs : s ∈ roots)
    (hne : s ≠ r) (hset : m.Settled roots s) : (m.step roots r).Settled roots s := by
  have ⟨h', hT⟩ := h.step hr
  intro t ht hts
  have ht := live_step_subset m roots r ht
  have hn := List.map_inj_left.mp (h'.names.trans h.names.symm) t (mem_live_iff.mp ht).left
  rw [hT s hs hne, hn]
  exact hset t ht hts

theorem Sound.settled_foldl_step (h : m.Sound entries roots) (hk : (entries.map (·.1)).Nodup)
    (his : is ⊆ roots) (hr : r ∈ roots) (hset : r ∈ is ∨ m.Settled roots r)
    (hl : r ∈ (is.foldl (Merge.step roots) m).live roots) :
    (is.foldl (Merge.step roots) m).Settled roots r := by
  induction is generalizing m
  case nil => exact hset.resolve_left List.not_mem_nil
  case cons s is ih =>
    have ⟨hs, his⟩ := List.cons_subset.mp his
    refine ih (h.step hs).left his ?_ hl
    by_cases hrs : r = s
    case pos =>
      subst hrs
      have hl := live_step_subset m roots r (live_foldl_step_subset _ _ _ hl)
      exact .inr (h.settled_step hk hr (mem_live_iff.mp hl).right)
    case neg =>
      refine hset.imp (fun hm => ?_) (h.preserves_settled hs hr hrs)
      exact (List.mem_cons.mp hm).resolve_left hrs

end Merge
end DocPress.Arena
