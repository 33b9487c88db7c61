import DocPress.Proofs.Tree.Ladder

-- What the trees of an outline carry, and which items hang below which. Items hang below deeper
-- ones where those have no item at the level above them: the first of them takes all others.

namespace DocPress.Tree

open Text

-- The data of the nodes that have any.
def carried (ts : List Tree) : List Text :=
  (namesAll ts).filter (· ≠ [])

-- One node is above another one. The positions are those among the nodes that carry data.
inductive Above : List Tree → Nat → Nat → Prop
  | root : t.data ≠ [] → j < (carried t.children).length → Above (t :: ts) 0 (j + 1)
  | down : t.data ≠ [] → Above t.children i j → Above (t :: ts) (i + 1) (j + 1)
  | pass : t.data = [] → Above t.children i j → Above (t :: ts) i j
  | next : Above ts i j → Above (t :: ts) (i + (carried [t]).length) (j + (carried [t]).length)

-- Nodes are at deeper levels than the nodes above them.
def Descends (ts : List Tree) (ls : List Nat) : Prop :=
  ∀ i j, Above ts i j → ∀ k ∈ ls[i]?, ∀ l ∈ ls[j]?, k < l

-- Behind some level come deeper ones, and then one that stands between. The first of the deeper
-- ones is not the only one as high as itself.
def Trips (b : Nat) (ls : List Nat) : Prop :=
  ∃ l ks m, l :: (ks ++ [m]) <+: ls ∧ b < m ∧ (∀ k ∈ l :: ks, m < k) ∧ ∃ k ∈ ks, k ≤ l

def Overhangs (ls : List Nat) : Prop :=
  ∃ b ks, b :: ks <:+ ls ∧ Trips b ks

variable {b i j k m : Nat} {n x : Text} {t : Tree} {ts us : List Tree} {ks ls xs ys : List Nat}
  {ps qs : List (Nat × Text)}

theorem carried_append (ts us : List Tree) : carried (ts ++ us) = carried ts ++ carried us := by
  induction ts
  case nil => rfl
  case cons t ts ih =>
    simp only [carried, List.cons_append, namesAll, List.filter_append, List.append_assoc] at ih ⊢
    rw [ih]

theorem carried_cons (t : Tree) (ts : List Tree) : carried (t :: ts) = carried [t] ++ carried ts :=
  carried_append [t] ts

theorem carried_singleton (hd : t.data ≠ []) : carried [t] = t.data :: carried t.children := by
  simp [carried, namesAll, names_eq, hd]

theorem carried_placeholder (hd : t.data = []) : carried [t] = carried t.children := by
  simp [carried, namesAll, names_eq, hd]

theorem Above.lt (h : Above ts i j) : i < j ∧ j < (carried ts).length := by
  induction h
  case root hd hj =>
    rw [carried_cons, carried_singleton hd]
    exact ⟨Nat.succ_pos _, Nat.lt_of_lt_of_le (Nat.succ_lt_succ hj) (by simp)⟩
  case down hd _ ih =>
    rw [carried_cons, carried_singleton hd]
    exact ⟨Nat.succ_lt_succ ih.left, Nat.lt_of_lt_of_le (Nat.succ_lt_succ ih.right) (by simp)⟩
  case pass hd _ ih =>
    rw [carried_cons, carried_placeholder hd]
    exact ⟨ih.left, Nat.lt_of_lt_of_le ih.right (by simp)⟩
  case next ts i j t _ ih =>
    rw [carried_cons t ts, List.length_append, Nat.add_comm (carried [t]).length]
    exact ⟨Nat.add_lt_add_right ih.left _, Nat.add_lt_add_right ih.right _⟩

theorem above_cons_iff : Above (t :: ts) i j ↔
    Above [t] i j ∨ ∃ a b, Above ts a b ∧ a + (carried [t]).length = i ∧
      b + (carried [t]).length = j := by
  constructor
  case mp =>
    intro h
    cases h
    case root hd hj => exact .inl (.root hd hj)
    case down hd h  => exact .inl (.down hd h)
    case pass hd h  => exact .inl (.pass hd h)
    case next h     => exact .inr ⟨_, _, h, rfl, rfl⟩
  case mpr =>
    rintro (h | ⟨a, b, h, rfl, rfl⟩)
    case inr => exact .next h
    case inl =>
      cases h
      case root hd hj => exact .root hd hj
      case down hd h  => exact .down hd h
      case pass hd h  => exact .pass hd h
      case next h     => exact absurd h.lt.right (Nat.not_lt_zero _)

theorem descends_nil (ls : List Nat) : Descends [] ls :=
  fun _ _ h => absurd h.lt.right (Nat.not_lt_zero _)

theorem descends_cons (hx : xs.length = (carried [t]).length) :
    Descends (t :: ts) (xs ++ ys) ↔ Descends [t] xs ∧ Descends ts ys := by
  have hl : ∀ {i j}, Above [t] i j → (xs ++ ys)[i]? = xs[i]? ∧ (xs ++ ys)[j]? = xs[j]? := by
    intro i j h
    have ⟨hi, hj⟩ := h.lt
    rw [← hx] at hj
    exact ⟨List.getElem?_append_left (Nat.lt_trans hi hj), List.getElem?_append_left hj⟩
  have hr : ∀ i, (xs ++ ys)[i + (carried [t]).length]? = ys[i]? := by
    intro i
    rw [← hx, List.getElem?_append_right (Nat.le_add_left _ i), Nat.add_sub_cancel]
  constructor
  case mp =>
    intro h
    constructor
    case left =>
      intro i j ha k hk l hlj
      have ⟨hi, hj⟩ := hl ha
      exact h i j (above_cons_iff.mpr (.inl ha)) k (hi ▸ hk) l (hj ▸ hlj)
    case right =>
      intro i j ha k hk l hl
      exact h _ _ (.next ha) k (hr i ▸ hk) l (hr j ▸ hl)
  case mpr =>
    intro ⟨ht, hts⟩ i j ha k hk l hlj
    rcases above_cons_iff.mp ha with h | ⟨a, b, h, rfl, rfl⟩
    case inl =>
      have ⟨hi, hj⟩ := hl h
      exact ht i j h k (hi ▸ hk) l (hj ▸ hlj)
    case inr => exact hts a b h k (hr a ▸ hk) l (hr b ▸ hlj)

theorem descends_singleton (hd : t.data ≠ []) (hx : xs.length = (carried t.children).length) :
    Descends [t] (k :: xs) ↔ (∀ x ∈ xs, k < x) ∧ Descends t.children xs := by
  constructor
  case mp =>
    intro h
    constructor
    case left =>
      intro x hm
      have ⟨j, hj⟩ := List.mem_iff_getElem?.mp hm
      have ⟨hlt, _⟩ := List.getElem?_eq_some_iff.mp hj
      exact h 0 (j + 1) (.root hd (hx ▸ hlt)) k rfl x hj
    case right => exact fun i j ha => h (i + 1) (j + 1) (.down hd ha)
  case mpr =>
    intro ⟨hk, h⟩ i j ha a hi b hj
    cases ha
    case root      => cases hi; exact hk b (List.mem_of_getElem? hj)
    case down ha   => exact h _ _ ha a hi b hj
    case pass      => contradiction
    case next ha   => exact absurd ha.lt.right (Nat.not_lt_zero _)

theorem descends_placeholder (hd : t.data = []) : Descends [t] ls ↔ Descends t.children ls := by
  constructor
  case mp  => exact fun h i j ha => h i j (.pass hd ha)
  case mpr =>
    intro h i j ha
    cases ha
    case root    => contradiction
    case down    => contradiction
    case pass ha => exact h i j ha
    case next ha => exact absurd ha.lt.right (Nat.not_lt_zero _)

-- A node without data around a tree makes no difference.
theorem descends_wrapped (hx : xs.length = (carried [t]).length) :
    Descends (node [] [t] :: ts) (xs ++ ys) ↔ Descends (t :: ts) (xs ++ ys) := by
  have hw : xs.length = (carried [node [] [t]]).length := by rwa [carried_placeholder rfl]
  rw [descends_cons hw, descends_cons hx, descends_placeholder rfl, children]

theorem trips_nil (b : Nat) : ¬Trips b [] := fun ⟨_, _, _, h, _⟩ =>
  List.cons_ne_nil _ _ (List.prefix_nil.mp h)

theorem overhangs_nil : ¬Overhangs [] := fun ⟨_, _, h, _⟩ =>
  List.cons_ne_nil _ _ (List.suffix_nil.mp h)

theorem overhangs_cons : Overhangs (b :: ls) ↔ Trips b ls ∨ Overhangs ls := by
  simp only [Overhangs, List.suffix_cons_iff, List.cons.injEq]
  constructor
  case mp =>
    rintro ⟨b, ks, ⟨rfl, rfl⟩ | h, ht⟩
    case inl => exact .inl ht
    case inr => exact .inr ⟨b, ks, h, ht⟩
  case mpr =>
    rintro (ht | ⟨b, ks, h, ht⟩)
    case inl => exact ⟨b, ls, .inl ⟨rfl, rfl⟩, ht⟩
    case inr => exact ⟨b, ks, .inr h, ht⟩

-- What stands behind a level is cut off where a level comes that is as high.
theorem prefix_of_prefix_append (h : ks <+: xs ++ ys) (hk : ∀ k ∈ ks, b < k)
    (hy : ∀ y ∈ ys.head?, y ≤ b) : ks <+: xs := by
  rcases List.prefix_or_prefix_of_prefix h (List.prefix_append xs ys) with h' | ⟨zs, rfl⟩
  case inl => exact h'
  case inr =>
    have hz := (List.prefix_append_right_inj xs).mp h
    cases zs
    case nil => exact (List.append_nil xs).symm ▸ List.prefix_rfl
    case cons z zs =>
      have ⟨ws, hw⟩ := hz
      have hz : z ≤ b := hy z (hw ▸ rfl)
      exact absurd (hk z (by simp)) (Nat.not_lt.mpr hz)

theorem trips_append (hy : ∀ y ∈ ys.head?, y ≤ b) : Trips b (xs ++ ys) ↔ Trips b xs := by
  constructor
  case mp =>
    intro ⟨l, ks, m, h, hb, hm, hk⟩
    refine ⟨l, ks, m, prefix_of_prefix_append h (fun k hk => ?_) hy, hb, hm, hk⟩
    rcases List.mem_append.mp (List.cons_append ▸ hk) with hk | hk
    case inl => exact Nat.lt_trans hb (hm k hk)
    case inr => exact List.mem_singleton.mp hk ▸ hb
  case mpr =>
    intro ⟨l, ks, m, h, ht⟩
    exact ⟨l, ks, m, h.trans (List.prefix_append xs ys), ht⟩

theorem overhangs_append (hy : ∀ x ∈ xs, ∀ y ∈ ys.head?, y ≤ x) :
    Overhangs (xs ++ ys) ↔ Overhangs xs ∨ Overhangs ys := by
  induction xs
  case nil => simp [overhangs_nil]
  case cons x xs ih =>
    have ⟨hx, hxs⟩ := List.forall_mem_cons.mp hy
    rw [List.cons_append, overhangs_cons, overhangs_cons, trips_append hx, ih hxs, or_assoc]

-- In front of the first one at the level of all others.
theorem trips_front (hb : b < m) (hx : ∀ x ∈ xs, m < x) (hy : ∀ y ∈ ys, m ≤ y) :
    Trips b (xs ++ m :: ys) ↔ ∃ l ks, xs = l :: ks ∧ ∃ k ∈ ks, k ≤ l := by
  constructor
  case mp =>
    intro ⟨l, ks, a, h, _, ha, k, hk, hkl⟩
    have hm : ∀ x ∈ xs ++ m :: ys, m ≤ x := by
      simp only [List.forall_mem_append, List.forall_mem_cons]
      exact ⟨fun x hm => Nat.le_of_lt (hx x hm), Nat.le_refl m, hy⟩
    have hma : m ≤ a := hm a (h.mem (by simp))
    have hp : l :: ks <+: xs :=
      prefix_of_prefix_append (b := m) ((List.prefix_append (l :: ks) [a]).trans h)
        (fun k hk => Nat.lt_of_le_of_lt hma (ha k hk)) (by simp)
    have ⟨zs, hz⟩ := hp
    exact ⟨l, ks ++ zs, hz.symm, k, List.mem_append_left zs hk, hkl⟩
  case mpr =>
    rintro ⟨l, ks, rfl, hk⟩
    exact ⟨l, ks, m, ⟨ys, by simp⟩, hb, hx, hk⟩

theorem before_append (m : Nat) (ps : List (Nat × Text)) :
    before m ps ++ ps.dropWhile (m < ·.1) = ps :=
  List.takeWhile_append_dropWhile

theorem map_before_append (m : Nat) (ps : List (Nat × Text)) :
    (before m ps).map (·.1) ++ (ps.dropWhile (m < ·.1)).map (·.1) = ps.map (·.1) := by
  rw [← List.map_append, before_append]

theorem exists_of_mem_parts {p : Text × List (Nat × Text)} (hp : p ∈ parts m ps) :
    ∃ k qs, (k, p.1) :: qs <:+ ps ∧ p.2 = before m qs := by
  induction ps
  case nil => contradiction
  case cons q ps ih =>
    have hs := List.suffix_cons q ps
    rw [parts] at hp
    split at hp
    case isTrue =>
      obtain ⟨k, qs, h, he⟩ := ih hp
      exact ⟨k, qs, h.trans hs, he⟩
    case isFalse =>
      cases hp
      case head    => exact ⟨q.1, ps, List.suffix_rfl, rfl⟩
      case tail hp =>
        obtain ⟨k, qs, h, he⟩ := ih hp
        exact ⟨k, qs, h.trans hs, he⟩

theorem mem_of_mem_before {q : Nat × Text} (hq : q ∈ before m ps) : q ∈ ps :=
  (List.takeWhile_prefix _).mem hq

theorem mem_of_mem_parts {p : Text × List (Nat × Text)} {q : Nat × Text} (hp : p ∈ parts m ps)
    (hq : q ∈ p.2) : q ∈ ps := by
  have ⟨k, qs, hs, he⟩ := exists_of_mem_parts hp
  exact hs.mem (List.mem_cons_of_mem _ (mem_of_mem_before (he ▸ hq)))

theorem deeper_of_mem_parts {p : Text × List (Nat × Text)} {q : Nat × Text} (hp : p ∈ parts m ps)
    (hq : q ∈ p.2) : m < q.1 := by
  have ⟨k, qs, hs, he⟩ := exists_of_mem_parts hp
  exact deeper_of_mem_before (he ▸ hq)

theorem carried_named (hn : n ≠ []) (ts : List Tree) : carried [named n ts] = n :: carried ts := by
  have hd : (named n ts).data ≠ [] := (data_named n ts).symm ▸ hn
  rw [carried_singleton hd, data_named, children_named]

theorem carried_parts (hn : ∀ p ∈ ps, p.2 ≠ [])
    (h : ∀ p ∈ parts m ps, carried (hung p.2) = p.2.map (·.2)) :
    carried ((parts m ps).map fun p => named p.1 (hung p.2)) =
      (ps.dropWhile (m < ·.1)).map (·.2) := by
  induction ps
  case nil => rfl
  case cons q ps ih =>
    obtain ⟨hq, hn⟩ := List.forall_mem_cons.mp hn
    by_cases hm : m < q.1
    case pos =>
      rw [parts, if_pos hm] at h ⊢
      rw [List.dropWhile_cons_of_pos (by simpa using hm), ih hn h]
    case neg =>
      rw [parts, if_neg hm] at h ⊢
      obtain ⟨hb, h⟩ := List.forall_mem_cons.mp h
      rw [List.dropWhile_cons_of_neg (by simpa using hm), List.map_cons, carried_cons,
        carried_named hq, hb, ih hn h, List.cons_append, ← List.map_append, before_append,
        List.map_cons]

-- All items are carried, in their order.
theorem carried_hung (hn : ∀ p ∈ ps, p.2 ≠ []) : carried (hung ps) = ps.map (·.2) := by
  induction ps using hung.induct
  case case1 ps ihf ihp =>
    have hp : ∀ p ∈ parts (least ps) ps, carried (hung p.2) = p.2.map (·.2) := fun p hp =>
      ihp ⟨p, hp⟩ fun q hq => hn q (mem_of_mem_parts hp hq)
    have hs := before_append (least ps) ps
    cases hb : before (least ps) ps
    all_goals rw [hb] at hs
    case nil =>
      rw [hung_of_before_eq_nil hb, carried_parts hn hp]
      exact congrArg (List.map (·.2)) hs
    case cons q qs =>
      have hm : ∀ p ∈ q :: qs, p.2 ≠ [] := fun p hp => hn p (mem_of_mem_before (hb ▸ hp))
      obtain ⟨hq, hqs⟩ := List.forall_mem_cons.mp hm
      have hc : carried [node [] [named q.2 (hung qs)]] = (q :: qs).map (·.2) := by
        rw [carried_placeholder rfl, children, carried_named hq, ihf q.1 q.2 qs hb hqs, List.map_cons]
      rw [hung_of_before_eq_cons hb, carried_cons, hc, carried_parts hn hp, ← List.map_append, hs]

theorem carried_outlined (hn : ∀ p ∈ ps, p.2 ≠ []) (m : Nat) :
    carried [outlined m ps] = ps.map (·.2) := by
  cases ps
  case nil => rfl
  case cons p ps =>
    have hm : ∀ q ∈ (m, p.2) :: ps, q.2 ≠ [] := by simpa using hn
    rw [carried_placeholder rfl]
    show carried ((parts m ((m, p.2) :: ps)).map _) = _
    rw [carried_parts hm fun q hq => carried_hung fun x hx => hm x (mem_of_mem_parts hq hx),
      List.dropWhile_cons_of_neg (by simp)]
    rfl

theorem le_of_head?_dropWhile {y : Nat}
    (hy : y ∈ ((ps.dropWhile (m < ·.1)).map (·.1)).head?) : y ≤ m := by
  rw [List.head?_map] at hy
  have ⟨q, hq, he⟩ := Option.map_eq_some_iff.mp hy
  have h := List.head?_dropWhile_not (fun q : Nat × Text => decide (m < q.1)) ps
  rw [hq] at h
  simpa [he] using h

theorem descends_named (hn : n ≠ []) (hx : ks.length = (carried ts).length) :
    Descends [named n ts] (k :: ks) ↔ (∀ l ∈ ks, k < l) ∧ Descends ts ks := by
  have hd : (named n ts).data ≠ [] := (data_named n ts).symm ▸ hn
  have hc : (named n ts).children = ts := children_named n ts
  rw [descends_singleton hd (hc.symm ▸ hx), hc]

theorem descends_parts (hm : ∀ p ∈ ps, m ≤ p.1) (hn : ∀ p ∈ ps, p.2 ≠ [])
    (h : ∀ p ∈ parts m ps,
      (Descends (hung p.2) (p.2.map (·.1)) ↔ ¬Overhangs (m :: p.2.map (·.1)))) :
    Descends ((parts m ps).map fun p => named p.1 (hung p.2))
        ((ps.dropWhile (m < ·.1)).map (·.1)) ↔
      ¬Overhangs ((ps.dropWhile (m < ·.1)).map (·.1)) := by
  induction ps
  case nil => exact iff_of_true (descends_nil _) overhangs_nil
  case cons q ps ih =>
    obtain ⟨hq, hn⟩ := List.forall_mem_cons.mp hn
    obtain ⟨hmq, hm⟩ := List.forall_mem_cons.mp hm
    by_cases hlt : m < q.1
    case pos =>
      rw [parts, if_pos hlt] at h ⊢
      rw [List.dropWhile_cons_of_pos (by simpa using hlt), ih hm hn h]
    case neg =>
      have he : q.1 = m := Nat.le_antisymm (Nat.le_of_not_lt hlt) hmq
      have hd : ∀ x ∈ (before m ps).map (·.1), m < x :=
        List.forall_mem_map.mpr fun q hq => deeper_of_mem_before hq
      have hl : ((before m ps).map (·.1)).length = (carried (hung (before m ps))).length := by
        rw [carried_hung fun q hq => hn q (mem_of_mem_before hq), List.length_map, List.length_map]
      have ho : ∀ x ∈ m :: (before m ps).map (·.1),
          ∀ y ∈ ((ps.dropWhile (m < ·.1)).map (·.1)).head?, y ≤ x :=
        List.forall_mem_cons.mpr ⟨fun y hy => le_of_head?_dropWhile hy, fun x hx y hy =>
          Nat.le_trans (le_of_head?_dropWhile hy) (Nat.le_of_lt (hd x hx))⟩
      rw [parts, if_neg hlt] at h ⊢
      obtain ⟨hb, h⟩ := List.forall_mem_cons.mp h
      rw [List.dropWhile_cons_of_neg (by simpa using hlt), List.map_cons, List.map_cons, he,
        ← map_before_append m ps, ← List.cons_append, descends_cons (by rw [carried_named hq]; simp [hl]),
        overhangs_append ho, descends_named hq hl, and_iff_right hd, hb, ih hm hn h, not_or]

theorem exists_dropWhile_least (hn : ps ≠ []) :
    ∃ n qs, ps.dropWhile (least ps < ·.1) = (least ps, n) :: qs := by
  have ⟨⟨n, hl⟩, hm⟩ := least_spec hn
  have hd : ps.dropWhile (least ps < ·.1) ≠ [] := by
    rw [Ne, List.dropWhile_eq_nil_iff]
    exact fun h => absurd (h _ hl) (by simp)
  have ⟨q, qs, he⟩ := List.exists_cons_of_ne_nil hd
  have hq : q ∈ ps := (List.dropWhile_suffix _).mem (he ▸ List.mem_cons_self)
  have hle : q.1 ≤ least ps := le_of_head?_dropWhile (by rw [he]; rfl)
  exact ⟨q.2, qs, by rw [he, ← Nat.le_antisymm hle (hm q hq)]⟩

-- At the front it is what precedes the least level that has no place.
theorem trips_levels (hb : ∀ p ∈ ps, b < p.1) :
    Trips b (ps.map (·.1)) ↔
      ∃ q qs, before (least ps) ps = q :: qs ∧ ∃ p ∈ qs, p.1 ≤ q.1 := by
  by_cases hn : ps = []
  case pos => simp [hn, trips_nil, before]
  case neg =>
    obtain ⟨⟨_, hl⟩, hm⟩ := least_spec hn
    obtain ⟨n, qs, he⟩ := exists_dropWhile_least hn
    have hx : ∀ x ∈ (before (least ps) ps).map (·.1), least ps < x :=
      List.forall_mem_map.mpr fun q hq => deeper_of_mem_before hq
    have hy : ∀ y ∈ qs.map (·.1), least ps ≤ y :=
      List.forall_mem_map.mpr fun q hq =>
        hm q ((List.dropWhile_suffix _).mem (he ▸ List.mem_cons_of_mem _ hq))
    rw [← map_before_append (least ps) ps, he, List.map_cons, trips_front (hb _ hl) hx hy]
    constructor
    case mp =>
      rintro ⟨l, ks, hl, k, hk, hkl⟩
      obtain ⟨q, qs, hb, hq, hqs⟩ := List.map_eq_cons_iff.mp hl
      subst hq hqs
      obtain ⟨p, hp, he⟩ := List.mem_map.mp hk
      exact ⟨q, qs, hb, p, hp, he ▸ hkl⟩
    case mpr =>
      rintro ⟨q, qs, hb, p, hp, hle⟩
      exact ⟨q.1, qs.map (·.1), by rw [hb, List.map_cons], p.1, List.mem_map_of_mem hp, hle⟩

theorem length_carried_hung (hn : ∀ p ∈ ps, p.2 ≠ []) :
    (ps.map (·.1)).length = (carried (hung ps)).length := by
  rw [carried_hung hn, List.length_map, List.length_map]

theorem length_carried_named {q : Nat × Text} (hq : q.2 ≠ []) (hn : ∀ p ∈ qs, p.2 ≠ []) :
    ((q :: qs).map (·.1)).length = (carried [named q.2 (hung qs)]).length := by
  rw [carried_named hq, List.map_cons, List.length_cons, List.length_cons, length_carried_hung hn]

theorem overhangs_levels (m : Nat) (ps : List (Nat × Text)) : Overhangs (ps.map (·.1)) ↔
    Overhangs ((before m ps).map (·.1)) ∨ Overhangs ((ps.dropWhile (m < ·.1)).map (·.1)) := by
  rw [← map_before_append m ps]
  apply overhangs_append
  intro x hx y hy
  have ⟨q, hq, he⟩ := List.mem_map.mp hx
  exact Nat.le_trans (le_of_head?_dropWhile hy) (he ▸ Nat.le_of_lt (deeper_of_mem_before hq))

-- Below a level that is above all of them, items hang at deeper levels throughout exactly if nothing
-- overhangs.
theorem descends_hung (hn : ∀ p ∈ ps, p.2 ≠ []) (hb : ∀ p ∈ ps, b < p.1) :
    Descends (hung ps) (ps.map (·.1)) ↔ ¬Overhangs (b :: ps.map (·.1)) := by
  induction ps using hung.induct generalizing b
  case case1 ps ihf ihp =>
    have hl : ∀ p ∈ ps, least ps ≤ p.1 := fun p hp => (least_spec (List.ne_nil_of_mem hp)).right p hp
    have hr := descends_parts hl hn fun p hp =>
      ihp ⟨p, hp⟩ (fun q hq => hn q (mem_of_mem_parts hp hq)) fun q => deeper_of_mem_parts hp
    have hs := map_before_append (least ps) ps
    rw [overhangs_cons, trips_levels hb, overhangs_levels (least ps)]
    cases hq : before (least ps) ps
    all_goals rw [hq] at hs
    case nil =>
      rw [hung_of_before_eq_nil hq, ← hs]
      simpa [overhangs_nil] using hr
    case cons q qs =>
      have hm : ∀ p ∈ q :: qs, p.2 ≠ [] := fun p hp => hn p (mem_of_mem_before (hq ▸ hp))
      obtain ⟨hqn, hqs⟩ := List.forall_mem_cons.mp hm
      have hi := ihf q.1 q.2 qs hq hqs (b := q.1)
      rw [hung_of_before_eq_cons hq, ← hs, descends_wrapped (length_carried_named hqn hqs),
        descends_cons (length_carried_named hqn hqs), hr, List.map_cons,
        descends_named hqn (length_carried_hung hqs), List.forall_mem_map, and_congr_right hi]
      simp [and_assoc]

-- In the tree of an outline the first item stands at the margin, with the same items below it.
theorem outlined_of_before_eq_nil (hn : ps ≠ []) (h : before (least ps) ps = []) :
    outlined (least ps) ps = node [] (hung ps) := by
  cases ps
  case nil => contradiction
  case cons p ps =>
    have hm : p.1 = least (p :: ps) := by
      have hle := (least_spec hn).right p List.mem_cons_self
      refine Nat.le_antisymm (Nat.le_of_not_lt fun hlt => ?_) hle
      rw [before, List.takeWhile_cons_of_pos (by simpa using hlt)] at h
      contradiction
    rw [hung_of_before_eq_nil h, outlined, ← hm]

theorem outlined_of_before_eq_cons {q : Nat × Text} (h : before (least ps) ps = q :: qs) :
    outlined (least ps) ps = node [] (named q.2 (hung qs) ::
      (parts (least ps) ps).map fun p => named p.1 (hung p.2)) := by
  cases ps
  case nil => contradiction
  case cons p ps =>
    have hlt : least (p :: ps) < p.1 := by
      by_contra hle
      rw [before, List.takeWhile_cons_of_neg (by simpa using hle)] at h
      contradiction
    rw [before, List.takeWhile_cons_of_pos (by simpa using hlt)] at h
    cases h
    rw [outlined, parts_margin, List.map_cons, parts.eq_2, if_pos hlt]
    rfl

theorem descends_outlined (hn : ∀ p ∈ ps, p.2 ≠ []) (hb : ∀ p ∈ ps, b < p.1) :
    Descends [outlined (least ps) ps] (ps.map (·.1)) ↔ ¬Overhangs (b :: ps.map (·.1)) := by
  rw [← descends_hung hn hb]
  cases hq : before (least ps) ps
  case nil =>
    by_cases he : ps = []
    case pos => rw [hung_of_before_eq_nil hq, he]; exact descends_placeholder rfl
    case neg => rw [outlined_of_before_eq_nil he hq, descends_placeholder rfl, children]
  case cons q qs =>
    have hm : ∀ p ∈ q :: qs, p.2 ≠ [] := fun p hp => hn p (mem_of_mem_before (hq ▸ hp))
    have ⟨hqn, hqs⟩ := List.forall_mem_cons.mp hm
    have hx := length_carried_named hqn hqs
    rw [outlined_of_before_eq_cons hq, hung_of_before_eq_cons hq, descends_placeholder rfl, children,
      ← map_before_append (least ps) ps, hq, descends_wrapped hx]

end DocPress.Tree
