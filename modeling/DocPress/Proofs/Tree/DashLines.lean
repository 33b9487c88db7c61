import Mathlib.Data.Nat.Find
import DocPress.Proofs.Tree.DashList

-- Outlines of single lines, each of which is an item at a depth of its own. Only the first line is
-- moved to the margin by reading them. This gives another tree than moving all lines by the same
-- amount, unless a line stands at the margin already or the first line is above all others.

namespace DocPress.Tree

open Text

-- Items with the depths they stand at.
def dashLines (step : Nat) (ps : List (Nat × Text)) : List Text :=
  ps.map fun p => dash step p.1 p.2

-- The same items, nearer to the margin.
def raised (m : Nat) (ps : List (Nat × Text)) : List (Nat × Text) :=
  ps.map fun p => (p.1 - m, p.2)

variable {step k m : Nat} {l n x y : Text} {ls ks : List Text} {ps : List (Nat × Text)}

theorem dashLines_cons (step k : Nat) (n : Text) (ps : List (Nat × Text)) :
    dashLines step ((k, n) :: ps) = dash step k n :: dashLines step ps := rfl

theorem dash_add (step m k : Nat) (n : Text) :
    dash step (m + k) n = spaces (step * m) ++ dash step k n := by
  simp only [dash, Nat.mul_add, spaces_add, List.append_assoc]

theorem dashLines_eq_map (hm : ∀ p ∈ ps, m ≤ p.1) (step : Nat) :
    dashLines step ps = (dashLines step (raised m ps)).map (spaces (step * m) ++ ·) := by
  simp only [dashLines, raised, List.map_map]
  apply List.map_congr_left
  intro p hp
  rw [Function.comp_apply, Function.comp_apply, ← dash_add, Nat.add_sub_cancel' (hm p hp)]

theorem not_blank_dashLines (step : Nat) (ps : List (Nat × Text)) :
    ∀ l ∈ dashLines step ps, blank l = false := by
  intro l hl
  have ⟨p, _, he⟩ := List.mem_map.mp hl
  exact he ▸ not_blank_dash step p.1 p.2

theorem tidy_dashLines (step : Nat) (hn : ∀ p ∈ ps, Plain p.2) :
    ∀ l ∈ dashLines step ps, Tidy l := by
  intro l hl
  have ⟨p, hp, he⟩ := List.mem_map.mp hl
  exact he ▸ tidy_dash step p.1 (hn p hp).toTidy

theorem opensItem_dashLines (step : Nat) (ps : List (Nat × Text)) :
    ∀ l ∈ (dashLines step ps).head?, Outline.opensItem l := by
  intro l hl
  have ⟨p, _, he⟩ := List.mem_map.mp (List.mem_of_mem_head? hl)
  exact he ▸ opensItem_dash step p.1 p.2

theorem dedentLines_dashLines_raised (hm : ∀ p ∈ ps, m ≤ p.1) :
    dedentLines (dashLines step (raised m ps)) = dedentLines (dashLines step ps) := by
  rw [dashLines_eq_map hm]
  exact (dedentLines_map_append (fun _ => isIndent_of_mem_spaces) (not_blank_dashLines _ _)).symm

theorem dedentLines_dashLines (hp : (0, n) ∈ ps) :
    dedentLines (dashLines step ps) = dashLines step ps :=
  dedentLines_eq_self (not_blank_dashLines step ps) (List.mem_map_of_mem hp)
    (by simp [dash, spaces, isIndent])

-- The margin is the least depth.
theorem dedentLines_dashLines_of_least (hp : (m, n) ∈ ps) (hm : ∀ p ∈ ps, m ≤ p.1) :
    dedentLines (dashLines step ps) = dashLines step (raised m ps) := by
  have h : (0, n) ∈ raised m ps := List.mem_map.mpr ⟨(m, n), hp, by rw [Nat.sub_self]⟩
  rw [← dedentLines_dashLines_raised hm, dedentLines_dashLines h]

theorem ofOutline_congr (h : Outline.core x = Outline.core y) : ofOutline x = ofOutline y := by
  rw [ofOutline_eq, ofOutline_eq, Outline.read?, Outline.read?, h]

-- The first line is read as if it stood at the margin.
theorem ofOutline_dashLines_cons (step k : Nat) (n : Text) (ps : List (Nat × Text)) :
    ofOutline (joinLines (dashLines step ((k, n) :: ps))) =
      ofOutline (joinLines (dashLines step ((0, n) :: ps))) := by
  apply ofOutline_congr
  rw [dashLines_cons, dashLines_cons, joinLines_cons_eq, joinLines_cons_eq]
  rw [Outline.core, Outline.core, ← Nat.add_zero k, dash_add, List.append_assoc,
    trim_append_left (blank_spaces _)]

theorem ofOutline_lines (hl : ∀ c ∈ l.head?, isBlank c = false) (ht : ∀ k ∈ l :: ls, Tidy k) :
    ofOutline (joinLines (l :: ls)) =
      if Outline.itemsOf (l :: ls) = [] then leaf (Outline.headerOf (l :: ls))
      else node (Outline.headerOf (l :: ls)) ((Outline.itemsOf (l :: ls)).map ofOutline) := by
  have h := read?_lines_of_tidy hl ht (x := []) rfl
  rw [List.append_nil] at h
  rw [ofOutline_eq, h]

theorem plain_at (j : Nat) (hp : ∀ p ∈ (k, n) :: ps, Plain p.2) : ∀ p ∈ (j, n) :: ps, Plain p.2 :=
  have ⟨hn, hp⟩ := List.forall_mem_cons.mp hp
  List.forall_mem_cons.mpr ⟨hn, hp⟩

theorem plain_raised (hp : ∀ p ∈ ps, Plain p.2) : ∀ p ∈ raised m ps, Plain p.2 := by
  intro p h
  have ⟨q, hq, he⟩ := List.mem_map.mp h
  exact he ▸ hp q hq

-- Below a name the depths of the lines count in relation to each other only.
theorem ofOutline_cons_raised (step : Nat) (hn : Plain n) (hp : ∀ p ∈ ps, Plain p.2)
    (hm : ∀ p ∈ ps, m ≤ p.1) :
    ofOutline (joinLines (n :: dashLines step (raised m ps))) =
      ofOutline (joinLines (n :: dashLines step ps)) := by
  have hk : ∀ k ∈ [n], Plain k := List.forall_mem_singleton.mpr hn
  have ht : ∀ qs, (∀ q ∈ qs, Plain q.2) → ∀ k ∈ n :: dashLines step qs, Tidy k := fun qs hq =>
    List.forall_mem_cons.mpr ⟨hn.toTidy, tidy_dashLines step hq⟩
  have hh : ∀ qs, Outline.headerOf (n :: dashLines step qs) = joinLines [n] := fun qs =>
    headerOf_append hk (opensItem_dashLines step qs)
  have hi : ∀ qs, Outline.itemsOf (n :: dashLines step qs) =
      itemTexts (dedentLines (dashLines step qs)) := fun qs =>
    itemsOf_append hk (opensItem_dashLines step qs)
  rw [ofOutline_lines hn.head (ht _ (plain_raised hp)), ofOutline_lines hn.head (ht ps hp)]
  rw [hh, hh, hi, hi, dedentLines_dashLines_raised hm]

-- The lines are cut in front of those at the margin.
theorem groups_dashLines (hs : 1 ≤ step) (hp : ∀ p ∈ ps, Plain p.2) :
    ∃ gs, Outline.groups (dashLines step ps) = dashLines step (ps.takeWhile (·.1 ≠ 0)) :: gs ∧
      gs.length = ps.countP (·.1 = 0) ∧ ∀ g ∈ gs, trim (joinLines g) ≠ [] := by
  induction ps
  case nil => exact ⟨[], rfl, rfl, List.forall_mem_nil _⟩
  case cons p ps ih =>
    have ⟨hn, hp⟩ := List.forall_mem_cons.mp hp
    have ⟨gs, hg, hc, hb⟩ := ih hp
    match p with
    | (0, n) =>
      let g := n :: dashLines step (ps.takeWhile (·.1 ≠ 0))
      have hj : blank (joinLines g) = false := by simp [g, blank_joinLines, hn.not_blank]
      refine ⟨g :: gs, ?_, ?_, List.forall_mem_cons.mpr ⟨trim_ne_nil hj, hb⟩⟩
      · rw [dashLines_cons, Outline.groups, item?_dash step hn, hg]
        rfl
      · rw [List.length_cons, hc, List.countP_cons_of_pos rfl]
    | (k + 1, n) =>
      refine ⟨gs, ?_, ?_, hb⟩
      · have ht : ((k + 1, n) :: ps).takeWhile (·.1 ≠ 0) = (k + 1, n) :: ps.takeWhile (·.1 ≠ 0) :=
          List.takeWhile_cons_of_pos (by simp)
        rw [ht, dashLines_cons, dashLines_cons, Outline.groups, dash_succ,
          item?_spaces_append hs, hg]
        rfl
      · rw [hc, List.countP_cons_of_neg (by simp)]

theorem length_itemTexts (hs : 1 ≤ step) (hp : ∀ p ∈ (0, n) :: ps, Plain p.2) :
    (itemTexts (dashLines step ((0, n) :: ps))).length = ps.countP (·.1 = 0) + 1 := by
  have ⟨gs, hg, hc, hb⟩ := groups_dashLines hs hp
  have hf : (gs.map fun g => trim (joinLines g)).filter (· ≠ []) = gs.map _ :=
    List.filter_eq_self.mpr fun x hx =>
      have ⟨g, hg, he⟩ := List.mem_map.mp hx
      decide_eq_true (he ▸ hb g hg)
  have he : trim (joinLines (dashLines step (((0, n) :: ps).takeWhile (·.1 ≠ 0)))) = [] := rfl
  rw [itemTexts, hg, List.map_cons, he, List.filter_cons_of_neg (by simp), hf, List.length_map, hc,
    List.countP_cons_of_pos rfl]

theorem itemTexts_of_deeper (hs : 1 ≤ step) (hp : ∀ p ∈ (0, n) :: ps, Plain p.2)
    (h₀ : ∀ p ∈ ps, p.1 ≠ 0) :
    itemTexts (dashLines step ((0, n) :: ps)) = [joinLines (n :: dashLines step ps)] := by
  have ⟨(hn : Plain n), hq⟩ := List.forall_mem_cons.mp hp
  have ⟨gs, hg, hc, _⟩ := groups_dashLines hs hq
  have ht : ps.takeWhile (·.1 ≠ 0) = ps :=
    List.takeWhile_eq_self_iff.mpr fun p h => decide_eq_true (h₀ p h)
  have hz : ps.countP (·.1 = 0) = 0 := List.countP_eq_zero.mpr fun p h => by simpa using h₀ p h
  have hl : ∀ l ∈ n :: dashLines step ps, Tidy l :=
    List.forall_mem_cons.mpr ⟨hn.toTidy, tidy_dashLines step hq⟩
  rw [ht, List.eq_nil_of_length_eq_zero (hc.trans hz)] at hg
  rw [itemTexts, dashLines_cons, Outline.groups, item?_dash step hn, hg]
  show [trim (joinLines []), trim (joinLines (n :: dashLines step ps))].filter (· ≠ []) = _
  rw [trim_joinLines hn.head hn.nonempty fun k hk => hl k (List.mem_of_mem_getLast? hk),
    List.filter_cons_of_neg (by simp [joinLines, trim, trimBy])]
  exact List.filter_cons_of_pos (decide_eq_true (joinLines_ne_nil hn.nonempty))

-- The items of lines of which the first one stands at the margin.
theorem ofOutline_dashLines (step : Nat) (hp : ∀ p ∈ (0, n) :: ps, Plain p.2) :
    ofOutline (joinLines (dashLines step ((0, n) :: ps))) =
      if itemTexts (dashLines step ((0, n) :: ps)) = [] then leaf []
      else node [] ((itemTexts (dashLines step ((0, n) :: ps))).map ofOutline) := by
  have hl : ∀ c ∈ (dash step 0 n).head?, isBlank c = false := by simp [dash, spaces, isBlank]
  have ho := opensItem_dashLines step ((0, n) :: ps)
  have hh := headerOf_append (List.forall_mem_nil _) ho
  have hi := itemsOf_append (List.forall_mem_nil _) ho
  rw [List.nil_append] at hh hi
  rw [dedentLines_dashLines List.mem_cons_self] at hi
  have ht := tidy_dashLines step hp
  rw [dashLines_cons] at *
  rw [ofOutline_lines hl ht, hh, hi]
  rfl

theorem exists_ofOutline_eq_node (hs : 1 ≤ step) (hp : ∀ p ∈ (k, n) :: ps, Plain p.2) :
    ∃ t ts, ofOutline (joinLines (dashLines step ((k, n) :: ps))) = node [] (t :: ts) := by
  have hp := plain_at 0 hp
  have ⟨x, xs, hx⟩ := List.exists_cons_of_length_eq_add_one (length_itemTexts hs hp)
  rw [ofOutline_dashLines_cons, ofOutline_dashLines step hp, hx, if_neg (List.cons_ne_nil x xs)]
  exact ⟨_, _, rfl⟩

-- There are as many trees below the root as there are lines at the margin.
theorem length_children_ofOutline (hs : 1 ≤ step) (hp : ∀ p ∈ (0, n) :: ps, Plain p.2) :
    (ofOutline (joinLines (dashLines step ((0, n) :: ps)))).children.length =
      ps.countP (·.1 = 0) + 1 := by
  rw [ofOutline_dashLines step hp, ← length_itemTexts hs hp]
  split
  case isTrue h  => rw [h]; rfl
  case isFalse   => exact List.length_map ofOutline

theorem ofOutline_of_deeper (hs : 1 ≤ step) (hp : ∀ p ∈ (0, n) :: ps, Plain p.2)
    (h₀ : ∀ p ∈ ps, p.1 ≠ 0) :
    ofOutline (joinLines (dashLines step ((0, n) :: ps))) =
      node [] [ofOutline (joinLines (n :: dashLines step ps))] := by
  rw [ofOutline_dashLines step hp, itemTexts_of_deeper hs hp h₀, if_neg (List.cons_ne_nil _ _)]
  rfl

-- Without the margin the first line is read as if it stood there, like before.
theorem ofOutline_dedentLines (step : Nat) (hl : (m, l) ∈ (k, n) :: ps)
    (hm : ∀ p ∈ (k, n) :: ps, m ≤ p.1) :
    ofOutline (joinLines (dedentLines (dashLines step ((k, n) :: ps)))) =
      ofOutline (joinLines (dashLines step ((0, n) :: raised m ps))) := by
  rw [dedentLines_dashLines_of_least hl hm]
  exact ofOutline_dashLines_cons step (k - m) n (raised m ps)

theorem exists_least (hn : ps ≠ []) : ∃ m n, (m, n) ∈ ps ∧ ∀ p ∈ ps, m ≤ p.1 := by
  classical
  have h : ∃ m, ∃ n, (m, n) ∈ ps :=
    have ⟨p, _, he⟩ := List.exists_cons_of_ne_nil hn
    ⟨p.1, p.2, he ▸ List.mem_cons_self⟩
  have ⟨n, hm⟩ := Nat.find_spec h
  exact ⟨Nat.find h, n, hm, fun p hp => Nat.find_min' h ⟨p.2, hp⟩⟩

-- Taking off the margin makes no difference below a first line that is above all others.
theorem ofOutline_dedentLines_of_deeper (hs : 1 ≤ step) (hp : ∀ p ∈ (k, n) :: ps, Plain p.2)
    (hk : ∀ p ∈ ps, k < p.1) :
    ofOutline (joinLines (dedentLines (dashLines step ((k, n) :: ps)))) =
      ofOutline (joinLines (dashLines step ((k, n) :: ps))) := by
  have ⟨hn, hq⟩ := List.forall_mem_cons.mp hp
  have hm : ∀ p ∈ ps, k ≤ p.1 := fun p h => Nat.le_of_lt (hk p h)
  have hd := ofOutline_dedentLines step List.mem_cons_self
    (List.forall_mem_cons.mpr ⟨Nat.le_refl (k, n).1, hm⟩)
  have h₀ : ∀ p ∈ ps, p.1 ≠ 0 := fun p h => Nat.ne_of_gt (Nat.zero_lt_of_lt (hk p h))
  have h₁ : ∀ p ∈ raised k ps, p.1 ≠ 0 := by
    intro p h
    have ⟨q, hq, he⟩ := List.mem_map.mp h
    exact he ▸ Nat.sub_ne_zero_of_lt (hk q hq)
  have hr : ∀ p ∈ (0, n) :: raised k ps, Plain p.2 :=
    List.forall_mem_cons.mpr ⟨hn, plain_raised hq⟩
  rw [hd, ofOutline_of_deeper hs hr h₁, ofOutline_dashLines_cons step k,
    ofOutline_of_deeper hs (plain_at 0 hp) h₀, ofOutline_cons_raised step hn hq hm]

-- Where no line stands at the margin, taking it off moves another line there than the first one.
theorem ofOutline_dedentLines_ne (hs : 1 ≤ step) (hp : ∀ p ∈ (k, n) :: ps, Plain p.2)
    (h₀ : ∀ p ∈ ps, p.1 ≠ 0) (hk : ∃ p ∈ ps, p.1 ≤ k) :
    ofOutline (joinLines (dedentLines (dashLines step ((k, n) :: ps)))) ≠
      ofOutline (joinLines (dashLines step ((k, n) :: ps))) := by
  have ⟨p, hpk, hle⟩ := hk
  have ⟨m, l, hl, hm⟩ := exists_least (List.ne_nil_of_mem hpk)
  have hd := ofOutline_dedentLines step (List.mem_cons_of_mem (k, n) hl)
    (List.forall_mem_cons.mpr ⟨Nat.le_trans (hm p hpk) hle, hm⟩)
  have ⟨hn, hq⟩ := List.forall_mem_cons.mp hp
  have hr : ∀ p ∈ (0, n) :: raised m ps, Plain p.2 :=
    List.forall_mem_cons.mpr ⟨hn, plain_raised hq⟩
  have hz : ps.countP (·.1 = 0) = 0 := List.countP_eq_zero.mpr fun p h => by simpa using h₀ p h
  have hc : 0 < (raised m ps).countP (·.1 = 0) :=
    List.countP_pos_iff.mpr ⟨(m - m, l), List.mem_map_of_mem hl, by simp⟩
  intro h
  rw [hd, ofOutline_dashLines_cons step k] at h
  have h := congrArg (·.children.length) h
  simp only [length_children_ofOutline hs hr, length_children_ofOutline hs (plain_at 0 hp)] at h
  omega

-- The tree is the same with and without the margin exactly where a line stands at depth zero, so
-- that there is no margin, or no line is as high as the first one.
theorem ofOutline_dedentLines_iff (hs : 1 ≤ step) (hp : ∀ p ∈ (k, n) :: ps, Plain p.2) :
    ofOutline (joinLines (dedentLines (dashLines step ((k, n) :: ps)))) =
        ofOutline (joinLines (dashLines step ((k, n) :: ps))) ↔
      (∃ p ∈ (k, n) :: ps, p.1 = 0) ∨ ∀ p ∈ ps, k < p.1 := by
  constructor
  case mp =>
    intro h
    by_cases h₀ : ∃ p ∈ (k, n) :: ps, p.1 = 0
    case pos => exact .inl h₀
    case neg =>
      refine .inr fun p hm => Nat.lt_of_not_le fun hk => ?_
      have h₀ : ∀ p ∈ ps, p.1 ≠ 0 := fun p hm h => h₀ ⟨p, List.mem_cons_of_mem _ hm, h⟩
      exact ofOutline_dedentLines_ne hs hp h₀ ⟨p, hm, hk⟩ h
  case mpr =>
    rintro (⟨⟨_, l⟩, hl, rfl⟩ | hk)
    case inl => rw [dedentLines_dashLines hl]
    case inr => exact ofOutline_dedentLines_of_deeper hs hp hk

end DocPress.Tree
