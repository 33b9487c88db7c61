import DocPress.Proofs.Arena.Standing

-- Expansion as a loop. It comes to a pass that splices nothing after at most as many others as
-- there are pending names, and what it has spliced by then is no longer pending.

namespace DocPress.Arena

open Relation

-- What an expansion has done when it comes to its end.
structure Expansion.Complete (root : Nat) (pending : NameMap Nat) (a : Arena)
    (done : List (Text × Nat)) (e : Expansion) : Prop where
  run     : Run root pending a done e.arena
  nodup   : (done.map (·.1)).Nodup
  found   : ∀ d ∈ done, pending.find? d.1 = some d.2
  spliced : e.spliced = done.map (·.2)
  pending : e.pending = pending.filterKeys (!(done.map (·.1)).contains ·)
  settled : ∀ i, ReflTransGen e.arena.Child root i → e.arena.children? i = none →
    e.arena.name i = e.arena.name root ∨ e.pending.find? (e.arena.name i) = none

variable {a : Arena} {root : Nat} {pending : NameMap Nat}

theorem Ready.complete (h : Ready a root pending) :
    ∃ done, (a.expand root pending).Complete root pending a done := by
  have ⟨done, he, hs⟩ := expand_after h
  have hr := he.run.preserves_stands h root h.root
  exact ⟨done, he.run, he.run.nodup, he.run.found, he.spliced, he.pending,
    fun i hc hi => hs i (hr.mem_openNodes_iff.mpr ⟨hc, hi⟩)⟩

-- In an arena that operations have built, an expansion makes one pass more than there are pending
-- names at most. Each name is spliced once and is then no longer pending, and in the end no open
-- node below the root has a pending name, unless it is named like the root.
theorem expand_stops_complete (h : ReflTransGen Operation empty a) (hr : root < a.size)
    (hp : ∀ k s, pending.find? k = some s → s < a.size) :
    (∃ k ≤ pending.size, Expansion.Stops root (.start a pending) k ∧
      a.expand root pending = (Expansion.next root)^[k] (.start a pending)) ∧
    ∃ done, Expansion.Complete root pending a done (a.expand root pending) := by
  have ⟨h, _⟩ := Operation.spec_all h .empty
  have hr := h.ready hr hp
  have ⟨k, hk, hs, he, _⟩ := expand_stops hr
  exact ⟨⟨k, hk, hs, he⟩, hr.complete⟩

-- Three names that lead to each other. The name of the root stays pending.
theorem expand_stops_complete_cycle :
    let a := (((empty.insertStub ['a'] [['b']]).2.insertStub ['b'] [['a'], ['c']]).2.insertStub
      ['c'] [['b']]).2
    let pending : NameMap Nat := .ofList [(['a'], 1), (['b'], 4), (['c'], 6)]
    ReflTransGen Operation empty a ∧ 1 < a.size ∧
      (∀ k s, pending.find? k = some s → s < a.size) ∧ (a.expand 1 pending).spliced = [4, 6] ∧
      (∃ k ≤ 3, Expansion.Stops 1 (.start a pending) k ∧
        a.expand 1 pending = (Expansion.next 1)^[k] (.start a pending)) ∧
      ∃ done, Expansion.Complete 1 pending a done (a.expand 1 pending) := by
  intro a pending
  have hp : ∀ k s, pending.find? k = some s → s < a.size := by
    intro k s hk
    have hs : (k, s) ∈ [(['a'], 1), (['b'], 4), (['c'], 6)] := NameMap.mem_of_find?_ofList hk
    simp only [List.mem_cons, Prod.mk.injEq, List.not_mem_nil, or_false] at hs
    obtain ⟨_, rfl⟩ | ⟨_, rfl⟩ | ⟨_, rfl⟩ := hs <;> decide
  have ha : ReflTransGen Operation empty a :=
    .tail (.tail (.single (.insertStub _ _)) (.insertStub _ _)) (.insertStub _ _)
  have hr : 1 < a.size := by decide
  have ⟨hk, hd⟩ := expand_stops_complete ha hr hp
  exact ⟨ha, hr, hp, by decide, hk, hd⟩

end DocPress.Arena
