import DocPress.Arena.Expand
import DocPress.Proofs.Arena.Storage
import DocPress.Proofs.NameMap.Lookup

-- Expansion as a run of splices. A splice gives an open node copies of what hangs below another
-- one: in the tree of every other node this is a graft, or nothing at all.

namespace DocPress

-- The tree with other data at its root.
def Tree.rename (d : Text) : Tree → Tree
  | leaf _    => leaf d
  | node _ ts => node d ts

theorem Tree.rename_data_pruned (t : Tree) : t.pruned.rename t.data = t.pruned := by
  rw [← data_pruned]
  cases t.pruned <;> rfl

namespace Arena

open Tree

variable {a b : Arena} {i j r s : Nat} {is js ks : List Nat} {d : Text} {t : Tree} {ts : List Tree}

-- The splice of what hangs below a source into an open node.
def graft (a : Arena) (i source : Nat) : Arena :=
  (a.copyChildren source).2.setChildren i (a.copyChildren source).1

theorem entries_graft (a : Arena) (i s j : Nat) :
    (a.graft i s).entries[j]? =
      if i = j then
        (a.copyChildren s).2.entries[j]?.map ({ · with children := (a.copyChildren s).1 })
      else (a.copyChildren s).2.entries[j]? := by
  simp [graft, setChildren, Array.getElem?_modify]

theorem entries_graft_of_ne (hj : j < a.size) (h : j ≠ i) :
    (a.graft i s).entries[j]? = a.entries[j]? := by
  rw [entries_graft, if_neg (Ne.symm h), (copyChildren_extends a s).kept j hj]

theorem entries_graft_self (he : a.entries[i]? = some ⟨d, c'⟩) :
    (a.graft i s).entries[i]? = some ⟨d, (a.copyChildren s).1⟩ := by
  rw [entries_graft, if_pos rfl, (copyChildren_extends a s).kept i (lt_size_of_entry he), he]
  rfl

theorem size_le_size_graft (a : Arena) (i s : Nat) : a.size ≤ (a.graft i s).size := by
  have := (copyChildren_extends a s).size_le
  simpa [graft, setChildren, size] using this

theorem name_graft (hj : j < a.size) : (a.graft i s).name j = a.name j := by
  have hk := (copyChildren_extends a s).kept j hj
  simp only [name, entries_graft, hk]
  split <;> cases a.entries[j]? <;> rfl

-- The open node becomes a copy of the source that keeps its own name. The copies are new nodes.
theorem holds_graft_self (he : a.entries[i]? = some ⟨d, none⟩) (hs : Holds a [s] [t] ks)
    (hn : ks.Nodup) :
    ∃ ls, Holds (a.graft i s) [i] [t.pruned.rename d] (i :: ls) ∧
      ls.Perm (List.range' a.size ls.length) ∧ (a.graft i s).size = a.size + ls.length := by
  have ht := hs.toTree_eq_singleton hn
  have he' := entries_graft_self (s := s) he
  have hz : (a.graft i s).size = (a.copyChildren s).2.size := by simp [graft, setChildren, size]
  cases hp : t.pruned
  case leaf e =>
    have hc : a.copyChildren s = (none, a) := by simp [copyChildren, ht, hp]
    rw [hc] at he' hz
    exact ⟨[], .leaf he' .nil, .nil, hz⟩
  case node e us =>
    obtain ⟨ls, h⟩ := insertTrees_stored us a
    have hc : a.copyChildren s = (some (insertTrees us a).1, (insertTrees us a).2) := by
      simp [copyChildren, ht, hp]
    have hb : Holds (a.graft i s) (insertTrees us a).1 us ls := by
      apply h.holds.congr
      intro l hl
      have hne : i ≠ l := Nat.ne_of_lt (Nat.lt_of_lt_of_le (lt_size_of_entry he) (h.le_of_mem hl))
      rw [entries_graft, if_neg hne, hc]
    rw [hc] at he' hz
    refine ⟨ls, ?_, h.numbers, hz.trans h.size_eq⟩
    simpa [rename] using Holds.node he' hb .nil

-- The trees of which the open node is a part change by a graft.
theorem Holds.graft_mem (h : Holds a is ts js) (hn : js.Nodup) (hi : i ∈ js)
    (he : a.entries[i]? = some ⟨d, none⟩) (hs : Holds a [s] [t] ks) (hk : ks.Nodup) :
    ∃ ts' js', Holds (a.graft i s) is ts' js' ∧ js'.Nodup ∧ js ⊆ js' ∧
      Graft d (t.pruned.rename d) ts ts' := by
  have ⟨ls, hls, hr, _⟩ := holds_graft_self he hs hk
  have hl : ls.Nodup := hr.nodup_iff.mpr List.nodup_range'
  have hf : ∀ l ∈ ls, a.size ≤ l := fun l hl => (List.mem_range'_1.mp (hr.mem_iff.mp hl)).left
  have ⟨ts', js', h', hp, g⟩ := h.graft hn hi he
    (fun j hj hne => entries_graft_of_ne (h.lt_size j hj) hne) hls
  have hn' : (ls ++ js).Nodup := List.nodup_append.mpr ⟨hl, hn, fun l hl j hj =>
    Nat.ne_of_gt (Nat.lt_of_lt_of_le (h.lt_size j hj) (hf l hl))⟩
  have hs : ∀ j ∈ js, j ∈ js' := fun j hj => hp.symm.subset (List.mem_append_right _ hj)
  exact ⟨ts', js', h', hp.nodup_iff.mpr hn', hs, g⟩

-- The other trees stay as they are.
theorem Holds.graft_not_mem (h : Holds a is ts js) (hi : i ∉ js) : Holds (a.graft i s) is ts js :=
  h.congr fun j hj => entries_graft_of_ne (h.lt_size j hj) fun hji => hi (hji ▸ hj)

theorem entry_of_isOpen (hi : i < a.size) (ho : a.isOpen i) :
    a.entries[i]? = some ⟨a.name i, none⟩ := by
  obtain ⟨e, he⟩ : ∃ e, a.entries[i]? = some e := ⟨_, Array.getElem?_eq_getElem hi⟩
  rw [isOpen_of_entry he] at ho
  rw [name_of_entry he, he]
  cases e
  simp_all

namespace Stands

theorem data_toTree (h : Stands a i) : (a.toTree i).data = a.name i := by
  have ⟨t, _, h, hn⟩ := h
  simpa [h.toTree_eq_singleton hn] using h.map_data

theorem openNodes_spec (h : Stands a i) :
    ∃ t js, Holds a [i] [t] js ∧ js.Nodup ∧ ∀ j, j ∈ a.openNodes i ↔ j ∈ js ∧ a.isOpen j := by
  have ⟨t, js, h, hn⟩ := h
  exact ⟨t, js, h, hn, by simp [h.openNodes_eq hn]⟩

theorem entry_of_mem_openNodes (h : Stands a i) (hj : j ∈ a.openNodes i) :
    a.entries[j]? = some ⟨a.name j, none⟩ := by
  have ⟨_, _, h, _, ho⟩ := h.openNodes_spec
  have ⟨hj, ho⟩ := (ho j).mp hj
  exact entry_of_isOpen (h.lt_size j hj) ho

theorem nodup_openNodes (h : Stands a i) : (a.openNodes i).Nodup := by
  have ⟨_, _, h, hn⟩ := h
  rw [h.openNodes_eq hn]
  exact hn.filter _

theorem graft (h : Stands a j) (he : a.entries[i]? = some ⟨d, none⟩) (hs : Stands a s) :
    Stands (a.graft i s) j := by
  have ⟨t, js, h, hn⟩ := h
  have ⟨u, ks, hs, hk⟩ := hs
  by_cases hi : i ∈ js
  case neg => exact ⟨t, js, h.graft_not_mem hi, hn⟩
  case pos =>
    have ⟨_, js', h', hn', _, _⟩ := h.graft_mem hn hi he hs hk
    have ⟨t', ht⟩ := h'.singleton
    exact ⟨t', js', ht ▸ h', hn'⟩

-- A splice leaves the other open nodes open.
theorem mem_openNodes_graft (h : Stands a r) (hs : Stands a s) (hi : i ∈ a.openNodes r)
    (hj : j ∈ a.openNodes r) (hne : j ≠ i) : j ∈ (a.graft i s).openNodes r := by
  have he := h.entry_of_mem_openNodes hi
  have ⟨t, js, hr, hn, ho⟩ := h.openNodes_spec
  have ⟨u, ks, hs, hk⟩ := hs
  have ⟨hi, _⟩ := (ho i).mp hi
  have ⟨hj, hoj⟩ := (ho j).mp hj
  have ⟨_, js', h', hn', hsub, _⟩ := hr.graft_mem hn hi he hs hk
  have ⟨t', ht⟩ := h'.singleton
  subst ht
  rw [h'.openNodes_eq hn', List.mem_filter]
  refine ⟨hsub hj, ?_⟩
  simpa [isOpen, children?, entries_graft_of_ne (hr.lt_size j hj) hne] using hoj

-- The tree of the root is grafted with a copy of the source.
theorem graft_toTree (h : Stands a r) (hs : Stands a s) (hi : i ∈ a.openNodes r) :
    Graft (a.name i) ((a.toTree s).pruned.rename (a.name i)) [a.toTree r]
      [(a.graft i s).toTree r] := by
  have he := h.entry_of_mem_openNodes hi
  have ⟨t, js, hr, hn, ho⟩ := h.openNodes_spec
  have ⟨u, ks, hs, hk⟩ := hs
  have ⟨_, js', h', hn', _, g⟩ := hr.graft_mem hn ((ho i).mp hi).left he hs hk
  have ⟨t', ht⟩ := h'.singleton
  subst ht
  rwa [hr.toTree_eq_singleton hn, hs.toTree_eq_singleton hk, h'.toTree_eq_singleton hn']

end Stands

-- Trees that stand beside the tree of the root stay as they are.
theorem Holds.toTree_graft_of_ne (h : Holds a is ts js) (hn : js.Nodup) (hr : r ∈ is) (hj : j ∈ is)
    (hne : j ≠ r) (hi : i ∈ a.openNodes r) : (a.graft i s).toTree j = a.toTree j := by
  have ⟨t, u, ks, ls, hr, hj, hk, hl, hd⟩ := h.disjoint_of_mem hn hr hj hne.symm
  rw [hr.openNodes_eq hk] at hi
  have hil : i ∉ ls := hd (List.mem_filter.mp hi).left
  rw [hj.toTree_eq_singleton hl, (hj.graft_not_mem hil).toTree_eq_singleton hl]

end Arena
end DocPress
