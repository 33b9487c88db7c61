import Mathlib.Logic.Function.Iterate
import DocPress.Proofs.Arena.Splice
import DocPress.Proofs.NameMap.Lookup

-- What an expansion does to an arena: it is a run of splices, each name is spliced at most once,
-- and in the end no open node below the root carries a name that is still pending.

namespace DocPress.Arena

-- What allows a source to be spliced into an open node, when other names have been spliced before.
structure Allows (a : Arena) (root : Nat) (pending : NameMap Nat) (done : List (Text × Nat))
    (i : Nat) (e : Text × Nat) : Prop where
  mem     : i ∈ a.openNodes root
  name    : a.name i = e.1
  ne_root : e.1 ≠ a.name root
  fresh   : e.1 ∉ done.map (·.1)
  found   : pending.find? e.1 = some e.2

-- A run of splices, with the names and the sources in the order in which they were spliced.
inductive Run (root : Nat) (pending : NameMap Nat) (a : Arena) : List (Text × Nat) → Arena → Prop
  | refl : Run root pending a [] a
  | step : Run root pending a done b → b.Allows root pending done i e →
    Run root pending a (done ++ [e]) (b.graft i e.2)

-- The nodes that a run needs.
structure Ready (a : Arena) (root : Nat) (pending : NameMap Nat) : Prop where
  root    : Stands a root
  pending : ∀ k s, pending.find? k = some s → Stands a s

variable {a b : Arena} {root i : Nat} {pending rest : NameMap Nat} {done : List (Text × Nat)}
  {is : List Nat} {p : Pass} {k : Text}

theorem Stands.lt_size (h : Stands a i) : i < a.size := by
  have ⟨_, _, h, _⟩ := h
  exact h.lt_size i (h.sublist.subset (List.mem_singleton_self i))

namespace Run

theorem size_le (r : Run root pending a done b) : a.size ≤ b.size := by
  induction r
  case refl => exact Nat.le_refl _
  case step ih => exact Nat.le_trans ih (size_le_size_graft ..)

theorem preserves_name (r : Run root pending a done b) (hi : i < a.size) : b.name i = a.name i := by
  induction r
  case refl => rfl
  case step r _ ih => exact (name_graft (Nat.lt_of_lt_of_le hi r.size_le)).trans ih

theorem preserves_stands (r : Run root pending a done b) (h : Ready a root pending) :
    ∀ i, Stands a i → Stands b i := by
  induction r
  case refl => exact fun _ => id
  case step e _ al ih =>
    have hr := ih _ h.root
    have hs := ih _ (h.pending _ _ al.found)
    exact fun i hi => (ih i hi).graft (hr.entry_of_mem_openNodes al.mem) hs

theorem preserves_ready (r : Run root pending a done b) (h : Ready a root pending) :
    Ready b root pending where
  root    := r.preserves_stands h root h.root
  pending := fun k s hk => r.preserves_stands h s (h.pending k s hk)

theorem found (r : Run root pending a done b) : ∀ e ∈ done, pending.find? e.1 = some e.2 := by
  induction r
  case refl => simp
  case step al ih =>
    simp only [List.forall_mem_append, List.forall_mem_singleton]
    exact ⟨ih, al.found⟩

theorem nodup (r : Run root pending a done b) : (done.map (·.1)).Nodup := by
  induction r
  case refl => exact List.nodup_nil
  case step al ih =>
    rw [List.map_append, List.map_singleton, ← List.concat_eq_append]
    exact ih.concat al.fresh

end Run

namespace Pass

theorem visit_cases (n : Text) (rest : NameMap Nat) (p : Pass) (i : Nat) :
    (p.visit n rest i = p ∧
      (p.arena.name i = n ∨ p.arena.name i ∈ p.names ∨ rest.find? (p.arena.name i) = none)) ∨
    (∃ s, p.arena.name i ≠ n ∧ p.arena.name i ∉ p.names ∧ rest.find? (p.arena.name i) = some s ∧
      p.visit n rest i = ⟨p.arena.graft i s, p.done ++ [(p.arena.name i, s)]⟩) := by
  simp only [visit, Bool.or_eq_true, decide_eq_true_eq, List.contains_iff_mem]
  split
  case isTrue h => exact .inl ⟨rfl, h.imp_right .inl⟩
  case isFalse h =>
    have ⟨hn, hm⟩ := not_or.mp h
    split
    case h_1 hf   => exact .inl ⟨rfl, .inr (.inr hf)⟩
    case h_2 s hf => exact .inr ⟨s, hn, hm, hf, rfl⟩

-- The visits of a pass continue a run. The nodes that are still to be visited stay open.
theorem run_foldl_visit (h : Ready a root pending)
    (hr : Run root pending a (done ++ p.done) p.arena)
    (hp : ∀ k s, rest.find? k = some s → pending.find? k = some s ∧ k ∉ done.map (·.1))
    (hi : ∀ i ∈ is, i ∈ p.arena.openNodes root) (hn : is.Nodup) :
    Run root pending a (done ++ (is.foldl (visit (a.name root) rest) p).done)
      (is.foldl (visit (a.name root) rest) p).arena := by
  induction is generalizing p
  case nil => exact hr
  case cons i is ih =>
    simp only [List.forall_mem_cons] at hi
    have ⟨hm, hn⟩ := List.nodup_cons.mp hn
    rw [List.foldl_cons]
    cases visit_cases (a.name root) rest p i
    case inl hv =>
      rw [hv.left]
      exact ih hr hi.right hn
    case inr hv =>
      have ⟨s, hne, hf, hs, hv⟩ := hv
      have ⟨hs, hd⟩ := hp _ _ hs
      have hb := hr.preserves_ready h
      have al : p.arena.Allows root pending (done ++ p.done) i (p.arena.name i, s) := {
        mem     := hi.left
        name    := rfl
        ne_root := hr.preserves_name h.root.lt_size ▸ hne
        fresh   := by rw [List.map_append, List.mem_append]; exact not_or.mpr ⟨hd, hf⟩
        found   := hs
      }
      rw [hv]
      refine ih (by simpa using hr.step al) (fun j hj => ?_) hn
      exact hb.root.mem_openNodes_graft (hb.pending _ _ hs) hi.left (hi.right j hj)
        fun hji => hm (hji ▸ hj)

theorem done_prefix_foldl_visit (n : Text) (rest : NameMap Nat) (is : List Nat) (p : Pass) :
    p.done <+: (is.foldl (visit n rest) p).done := by
  induction is generalizing p
  case nil => exact List.prefix_refl _
  case cons i is ih =>
    refine .trans ?_ (ih _)
    cases visit_cases n rest p i
    case inl hv => simp [hv.left]
    case inr hv =>
      have ⟨_, _, _, _, hv⟩ := hv
      simp [hv]

-- A pass that splices nothing has found nothing to splice.
theorem foldl_visit_of_done_eq_nil {n : Text} (h : (is.foldl (visit n rest) p).done = []) :
    ∀ i ∈ is, p.arena.name i = n ∨ rest.find? (p.arena.name i) = none := by
  induction is generalizing p
  case nil => simp
  case cons i is ih =>
    have hp := List.prefix_nil.mp (h ▸ done_prefix_foldl_visit n rest (i :: is) p)
    rw [List.foldl_cons] at h
    cases visit_cases n rest p i
    case inl hv =>
      rw [hv.left] at h
      simp only [List.forall_mem_cons]
      exact ⟨by simpa [names, hp] using hv.right, ih h⟩
    case inr hv =>
      have ⟨_, _, _, _, hv⟩ := hv
      have := List.prefix_nil.mp (h ▸ done_prefix_foldl_visit n rest is (p.visit n rest i))
      simp [hv] at this

end Pass

namespace Expansion

-- The state before the first pass.
def start (a : Arena) (pending : NameMap Nat) : Expansion where
  arena   := a
  pending := pending

-- The state after one more pass.
def next (root : Nat) (e : Expansion) : Expansion where
  arena   := (e.arena.pass root e.pending).arena
  pending := e.pending.filterKeys (!(e.arena.pass root e.pending).names.contains ·)
  spliced := e.spliced ++ (e.arena.pass root e.pending).done.map (·.2)

-- The state of an expansion after a run.
structure After (root : Nat) (pending : NameMap Nat) (a : Arena) (done : List (Text × Nat))
    (e : Expansion) : Prop where
  run     : Run root pending a done e.arena
  pending : e.pending = pending.filterKeys (!(done.map (·.1)).contains ·)
  spliced : e.spliced = done.map (·.2)

-- No open node below the root can be given children.
def Settled (root : Nat) (e : Expansion) : Prop :=
  ∀ i ∈ e.arena.openNodes root,
    e.arena.name i = e.arena.name root ∨ e.pending.find? (e.arena.name i) = none

-- The next pass splices nothing.
def Quiet (root : Nat) (e : Expansion) : Prop :=
  (e.arena.pass root e.pending).done = []

-- After so many passes that splice something comes the first one that splices nothing.
structure Stops (root : Nat) (e : Expansion) (k : Nat) : Prop where
  quiet : Quiet root ((next root)^[k] e)
  busy  : ∀ j < k, ¬Quiet root ((next root)^[j] e)

variable {e : Expansion}

theorem Quiet.settled (h : Quiet root e) : Settled root e :=
  Pass.foldl_visit_of_done_eq_nil h

namespace Stops

theorem zero (h : Quiet root e) : Stops root e 0 where
  quiet := h
  busy  := fun _ hj => absurd hj (Nat.not_lt_zero _)

theorem succ {k : Nat} (hq : ¬Quiet root e) (h : Stops root (e.next root) k) :
    Stops root e (k + 1) where
  quiet := h.quiet
  busy  := by
    rintro (_ | j) hj
    · exact hq
    · exact h.busy j (Nat.lt_of_succ_lt_succ hj)

end Stops

namespace After

theorem start (a : Arena) (root : Nat) (pending : NameMap Nat) :
    After root pending a [] (.start a pending) where
  run     := .refl
  pending := by simp [Expansion.start, NameMap.filterKeys]
  spliced := rfl

theorem filterKeys_pending (h : After root pending a done e) (ns : List Text) :
    e.pending.filterKeys (!ns.contains ·) =
      pending.filterKeys (!(done.map (·.1) ++ ns).contains ·) := by
  rw [h.pending, NameMap.filterKeys_filterKeys]
  congr 1
  ext k
  rw [List.contains_append, Bool.not_or]

theorem find?_pending (h : After root pending a done e) (k : Text) :
    e.pending.find? k = if k ∈ done.map (·.1) then none else pending.find? k := by
  rw [h.pending, NameMap.find?_filterKeys]
  by_cases hk : k ∈ done.map (·.1) <;> simp [hk]

theorem next (h : After root pending a done e) (hr : Ready a root pending) :
    After root pending a (done ++ (e.arena.pass root e.pending).done) (e.next root) where
  run := by
    have hname : e.arena.name root = a.name root := h.run.preserves_name hr.root.lt_size
    have hp : ∀ k s, e.pending.find? k = some s →
        pending.find? k = some s ∧ k ∉ done.map (·.1) := by
      intro k s hk
      rw [h.find?_pending] at hk
      split at hk
      case isTrue     => contradiction
      case isFalse hd => exact ⟨hk, hd⟩
    have hn := (h.run.preserves_ready hr).root.nodup_openNodes
    have := Pass.run_foldl_visit (p := { arena := e.arena }) hr (by simpa using h.run) hp
      (fun _ => id) hn
    rwa [← hname] at this
  pending := by
    rw [List.map_append]
    exact h.filterKeys_pending _
  spliced := by simp [Expansion.next, h.spliced]

-- A name that a pass splices was pending before it.
theorem size_pending_next_lt (h : After root pending a done e) (hr : Ready a root pending)
    (hd : (e.arena.pass root e.pending).done ≠ []) :
    (e.next root).pending.size < e.pending.size := by
  have ⟨d, hd⟩ := List.exists_mem_of_ne_nil _ hd
  have hrun := (h.next hr).run
  have hf := hrun.found d (List.mem_append_right _ hd)
  have hn := hrun.nodup
  rw [List.map_append] at hn
  have hm : d.1 ∈ (e.arena.pass root e.pending).names := List.mem_map_of_mem hd
  refine NameMap.size_filterKeys_lt (k := d.1) (v := d.2) ?_ (by simp [hm])
  rw [h.find?_pending, if_neg fun hk => (List.nodup_append.mp hn).right.right _ hk _ hm rfl, hf]

-- A pass that splices something leaves fewer names pending, so that there is one that splices
-- nothing before the steps have run out.
theorem expandUpTo (n : Nat) (h : After root pending a done e) (hr : Ready a root pending)
    (hn : e.pending.size ≤ n) :
    ∃ k ≤ e.pending.size, Stops root e k ∧
      expandUpTo root n e = (Expansion.next root)^[k] e ∧
      ∃ done', After root pending a done' (expandUpTo root n e) := by
  induction n generalizing e done
  case zero =>
    have hq : Quiet root e := by
      by_contra hq
      exact Nat.not_lt_zero _ (Nat.lt_of_lt_of_le (h.size_pending_next_lt hr hq) hn)
    exact ⟨0, Nat.zero_le _, .zero hq, rfl, done, h⟩
  case succ n ih =>
    rw [Arena.expandUpTo]
    split
    case isTrue hq => exact ⟨0, Nat.zero_le _, .zero hq, rfl, done, h⟩
    case isFalse hq =>
      have hlt := h.size_pending_next_lt hr hq
      have ⟨k, hk, hs, he⟩ := ih (h.next hr) (Nat.le_of_lt_succ (Nat.lt_of_lt_of_le hlt hn))
      exact ⟨k + 1, Nat.lt_of_le_of_lt hk hlt, hs.succ hq, he⟩

end After
end Expansion

theorem expand_stops (h : Ready a root pending) :
    ∃ k ≤ pending.size, Expansion.Stops root (.start a pending) k ∧
      a.expand root pending = (Expansion.next root)^[k] (.start a pending) ∧
      ∃ done, (a.expand root pending).After root pending a done :=
  (Expansion.After.start a root pending).expandUpTo pending.size h (Nat.le_refl _)

theorem expand_after (h : Ready a root pending) :
    ∃ done, (a.expand root pending).After root pending a done ∧
      (a.expand root pending).Settled root := by
  have ⟨_, _, hs, he, done, ha⟩ := expand_stops h
  exact ⟨done, ha, he ▸ hs.quiet.settled⟩

end DocPress.Arena
