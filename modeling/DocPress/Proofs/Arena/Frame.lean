import DocPress.Proofs.Arena.Standing

-- What an expansion leaves as it was. It is told by its splices, one for each name at most: only
-- the open nodes that they are made into are changed, and these belong to the tree of the root.

namespace DocPress.Arena

open Tree Relation

-- An open node is given copies of what hangs below the pending root that its name leads to.
structure Splice where
  node   : Nat
  name   : Text
  source : Nat

-- The arena after splices that are made one after the other.
def spliced (a : Arena) (ss : List Splice) : Arena :=
  ss.foldl (fun a s => a.graft s.node s.source) a

-- Splices that are made into leaves of the tree of the root, and lead from one arena to another. A
-- leaf that is older than the first of them was a leaf of the tree from the beginning.
structure Splices (root : Nat) (a : Arena) (ss : List Splice) (b : Arena) : Prop where
  arena : b = a.spliced ss
  named : ∀ s ∈ ss, s.node < b.size ∧ b.name s.node = s.name
  leaf  : ∀ ss' s, ss' ++ [s] <+: ss → ReflTransGen (a.spliced ss').Child root s.node ∧
    (a.spliced ss').children? s.node = none
  old   : ∀ s ∈ ss, s.node < a.size → ReflTransGen a.Child root s.node ∧ a.children? s.node = none

-- What an expansion has spliced, and what it has left as it was.
structure Expansion.Frame (root : Nat) (pending : NameMap Nat) (a : Arena) (ss : List Splice)
    (e : Expansion) : Prop extends Splices root a ss e.arena where
  sources : e.spliced = ss.map (·.source)
  found   : ∀ s ∈ ss, pending.find? s.name = some s.source
  once    : (ss.map (·.name)).Nodup
  name    : ∀ i < a.size, e.arena.name i = a.name i
  kept    : ∀ i < a.size, (∀ s ∈ ss, s.node ≠ i) → e.arena.children? i = a.children? i
  apart   : ∀ i < a.size, a.Apart i root → e.arena.toTree i = a.toTree i

variable {a b : Arena} {root i j s : Nat} {js : List Nat} {d : Text} {pending : NameMap Nat}
  {done : List (Text × Nat)} {ss : List Splice} {x : Splice}

-- Splices into other nodes leave a node as it is.
theorem entries_spliced (hi : i < a.size) (hs : ∀ s ∈ ss, s.node ≠ i) :
    (a.spliced ss).entries[i]? = a.entries[i]? := by
  induction ss generalizing a
  case nil => rfl
  case cons s ss ih =>
    have ⟨hn, hs⟩ := List.forall_mem_cons.mp hs
    have hz := size_le_size_graft a s.node s.source
    exact (ih (Nat.lt_of_lt_of_le hi hz) hs).trans (entries_graft_of_ne hi (Ne.symm hn))

-- Every older node that can be reached after a splice could be reached before it.
theorem Stands.reaches_of_graft (h : Stands a root) (hs : Stands a s)
    (he : a.entries[i]? = some ⟨d, none⟩) (hr : ReflTransGen (a.graft i s).Child root j)
    (hj : j < a.size) : ReflTransGen a.Child root j := by
  have ⟨_, js, hh, hn⟩ := h
  have ⟨_, _, ht, hk⟩ := hs
  refine hh.mem_iff_reaches.mp ?_
  by_cases hi : i ∈ js
  case neg => exact (hh.graft_not_mem hi).mem_iff_reaches.mpr hr
  case pos =>
    have ⟨ls, hl, hp, _⟩ := holds_graft_self he ht hk
    have ⟨_, js', h', hp', _⟩ := hh.graft hn hi he
      (fun j hj hne => entries_graft_of_ne (hh.lt_size j hj) hne) hl
    have hm : root ∈ js' :=
      hp'.mem_iff.mpr (List.mem_append_right _ (hh.mem_iff_reaches.mpr .refl))
    have hm := hp'.mem_iff.mp (h'.mem_of_reaches hr hm)
    refine (List.mem_append.mp hm).resolve_left fun hj' => ?_
    exact Nat.not_le_of_lt hj (List.mem_range'_1.mp (hp.mem_iff.mp hj')).left

theorem Run.reaches (r : Run root pending a done b) (h : Ready a root pending)
    (hr : ReflTransGen b.Child root j) (hj : j < a.size) : ReflTransGen a.Child root j := by
  induction r
  case refl => exact hr
  case step rn al ih =>
    have hb := rn.preserves_ready h
    have he := hb.root.entry_of_mem_openNodes al.mem
    have hj' := Nat.lt_of_lt_of_le hj rn.size_le
    exact ih (hb.root.reaches_of_graft (hb.pending _ _ al.found) he hr hj')

namespace Splices

theorem refl (root : Nat) (a : Arena) : Splices root a [] a where
  arena := rfl
  named := List.forall_mem_nil _
  leaf  := fun ss' s h => absurd (List.prefix_nil.mp h) (by simp)
  old   := List.forall_mem_nil _

theorem concat (h : Splices root a ss b) (hn : x.node < b.size ∧ b.name x.node = x.name)
    (hl : ReflTransGen b.Child root x.node ∧ b.children? x.node = none)
    (ho : x.node < a.size → ReflTransGen a.Child root x.node ∧ a.children? x.node = none) :
    Splices root a (ss ++ [x]) (b.graft x.node x.source) where
  arena := by rw [spliced, List.foldl_append, h.arena]; rfl
  named := by
    have hz := size_le_size_graft b x.node x.source
    have hg : ∀ s : Splice, s.node < b.size ∧ b.name s.node = s.name →
        s.node < (b.graft x.node x.source).size ∧ (b.graft x.node x.source).name s.node = s.name :=
      fun s ⟨hs, hn⟩ => ⟨Nat.lt_of_lt_of_le hs hz, (name_graft hs).trans hn⟩
    exact List.forall_mem_append.mpr
      ⟨fun s hs => hg s (h.named s hs), List.forall_mem_singleton.mpr (hg x hn)⟩
  leaf  := by
    intro ss' s hp
    cases List.prefix_concat_iff.mp hp
    case inl he =>
      have ⟨hs, hx⟩ := List.append_inj' he rfl
      rw [hs, ← h.arena, List.singleton_inj.mp hx]
      exact hl
    case inr hp => exact h.leaf ss' s hp
  old   := List.forall_mem_append.mpr ⟨h.old, List.forall_mem_singleton.mpr ho⟩

end Splices

theorem Run.exists_splices (r : Run root pending a done b) (h : Ready a root pending) :
    ∃ ss : List Splice, ss.map (fun s => (s.name, s.source)) = done ∧ Splices root a ss b := by
  induction r
  case refl => exact ⟨[], rfl, .refl root a⟩
  case step done b i e rn al ih =>
    have ⟨ss, hd, hb⟩ := ih
    have hr := rn.preserves_ready h
    have hl := hr.root.mem_openNodes_iff.mp al.mem
    refine ⟨ss ++ [⟨i, e.1, e.2⟩], by simp [hd], ?_⟩
    refine hb.concat ⟨hr.root.lt_size_of_reaches hl.left, al.name⟩ hl fun hi => ?_
    refine ⟨rn.reaches h hl.left hi, Option.eq_none_iff_forall_ne_some.mpr fun js hj => ?_⟩
    have hj := (Keeps.of_run h rn).children? i js hj
    exact Option.some_ne_none js (hj.symm.trans hl.right)

-- An expansion changes nothing but leaves of the tree of the root, and one leaf for each name that
-- it splices. All other nodes keep their children, and trees that have no nodes in common with the
-- tree of the root are read as before.
theorem expand_frame (h : Forest a) (hr : root < a.size)
    (hp : ∀ k s, pending.find? k = some s → s < a.size) :
    ∃ ss, Expansion.Frame root pending a ss (a.expand root pending) := by
  have hr : Ready a root pending := ⟨h.stands hr, fun k s hk => h.stands (hp k s hk)⟩
  have ⟨done, he, _⟩ := expand_after hr
  have ⟨ss, hd, hs⟩ := he.run.exists_splices hr
  have hk : ∀ i < a.size, (∀ s ∈ ss, s.node ≠ i) →
      (a.expand root pending).arena.entries[i]? = a.entries[i]? :=
    fun i hi hn => hs.arena ▸ entries_spliced hi hn
  refine ⟨ss, ⟨hs, ?sources, ?found, ?once, ?name, ?kept, ?apart⟩⟩
  case sources => rw [he.spliced, ← hd, List.map_map]; rfl
  case found   => exact fun s hm => he.run.found _ (hd ▸ List.mem_map_of_mem hm)
  case once =>
    have hn := he.run.nodup
    rwa [← hd, List.map_map] at hn
  case name => exact fun i hi => he.run.preserves_name hi
  case kept => exact fun i hi hn => by rw [children?, hk i hi hn, children?]
  case apart =>
    intro i hi ha
    refine (h.stands hi).toTree_congr fun j hj => ?_
    have hz := (h.stands hi).lt_size_of_reaches hj
    refine hk j hz fun s hm hn => ?_
    exact ha j hj (hn ▸ (hs.old s hm (hn ▸ hz)).left)

-- Of two leaves with the same name only the first one is expanded, and then a leaf that has come
-- with it.
theorem expand_frame_twins :
    let a := ((((empty.insertStub ['a'] [['b'], ['b']]).2.insertStub ['b']
      [['c'], ['a']]).2.insertStub ['c'] [['b']]).2.insertStub ['x'] [['b']]).2
    let pending : NameMap Nat := .ofList [(['b'], 5), (['c'], 7)]
    Forest a ∧ 2 < a.size ∧ (∀ k s, pending.find? k = some s → s < a.size) ∧
      (∃ ss, Expansion.Frame 2 pending a ss (a.expand 2 pending)) ∧
      (a.expand 2 pending).spliced = [5, 7] ∧
      (a.expand 2 pending).arena.children? 0 = some [10, 11] ∧
      (a.expand 2 pending).arena.children? 1 = none ∧
      (a.expand 2 pending).arena.children? 10 = some [12] := by
  intro a pending
  have ha : ReflTransGen Operation empty a :=
    .tail (.tail (.tail (.single (.insertStub _ _)) (.insertStub _ _)) (.insertStub _ _))
      (.insertStub _ _)
  have h : Forest a := (Operation.spec_all ha .empty).left.forest
  have hb : ∀ e ∈ [(['b'], 5), (['c'], 7)], e.2 < a.size := by decide
  have hp : ∀ k s, pending.find? k = some s → s < a.size := fun k s hk =>
    hb (k, s) (NameMap.mem_of_find?_ofList hk)
  exact ⟨h, by decide, hp, expand_frame h (by decide) hp, by decide +kernel⟩

end DocPress.Arena
