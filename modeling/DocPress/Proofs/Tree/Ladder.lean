import Mathlib.Data.List.Forall2
import DocPress.Proofs.Tree.DashLines

-- Outlines of single lines at any levels, with or without empty lines between them, and the tree
-- that is read from them. How the tree hangs together depends on the levels only.

namespace DocPress.Tree

open Text

-- The items are given with their levels. Those in front of the first one at a level or above it:
def before (m : Nat) (ps : List (Nat × Text)) : List (Nat × Text) :=
  ps.takeWhile (m < ·.1)

-- The items at a level or above it, each with the deeper ones that follow it.
def parts (m : Nat) : List (Nat × Text) → List (Text × List (Nat × Text))
  | []           => []
  | (k, n) :: ps => if m < k then parts m ps else (n, before m ps) :: parts m ps

def least (ps : List (Nat × Text)) : Nat :=
  (ps.map (·.1)).min?.getD 0

-- A name with trees below it.
def named (n : Text) : List Tree → Tree
  | []      => leaf n
  | t :: ts => node n (t :: ts)

theorem data_named (n : Text) (ts : List Tree) : (named n ts).data = n := by
  cases ts <;> rfl

theorem children_named (n : Text) (ts : List Tree) : (named n ts).children = ts := by
  cases ts <;> rfl

theorem length_before_le (m : Nat) (ps : List (Nat × Text)) : (before m ps).length ≤ ps.length :=
  (List.takeWhile_prefix _).length_le

theorem length_lt_of_mem_parts {m : Nat} {p : Text × List (Nat × Text)} {ps : List (Nat × Text)}
    (hp : p ∈ parts m ps) : p.2.length < ps.length := by
  induction ps
  case nil => contradiction
  case cons q ps ih =>
    have hl := length_before_le m ps
    rw [parts] at hp
    split at hp
    case isTrue => exact Nat.lt_succ_of_lt (ih hp)
    case isFalse =>
      cases hp
      case head    => exact Nat.lt_succ_of_le hl
      case tail hp => exact Nat.lt_succ_of_lt (ih hp)

-- The trees that hang below a name with these items behind it. The items at the least level hang
-- there directly. What precedes them has no place, and is put below a node without data: its first
-- item takes all others, whether they are deeper or not.
def hung (ps : List (Nat × Text)) : List Tree :=
  (match _ : before (least ps) ps with
    | []           => []
    | (_, n) :: qs => [node [] [named n (hung qs)]]) ++
  (parts (least ps) ps).attach.map fun p => named p.val.1 (hung p.val.2)
termination_by ps.length
decreasing_by
  · have hl := length_before_le (least ps) ps
    rwa [‹before (least ps) ps = _›, List.length_cons] at hl
  · exact length_lt_of_mem_parts p.property

-- The tree of items of which the first one stands at a level, wherever it was written.
def outlined (m : Nat) : List (Nat × Text) → Tree
  | []           => leaf []
  | (_, n) :: ps => node [] ((parts m ((m, n) :: ps)).map fun p => named p.1 (hung p.2))

theorem hung_of_before_eq_nil {ps : List (Nat × Text)} (h : before (least ps) ps = []) :
    hung ps = (parts (least ps) ps).map fun p => named p.1 (hung p.2) := by
  rw [hung, List.attach_map_val (f := fun p : Text × List (Nat × Text) => named p.1 (hung p.2))]
  split <;> simp_all

theorem hung_of_before_eq_cons {k : Nat} {n : Text} {ps qs : List (Nat × Text)}
    (h : before (least ps) ps = (k, n) :: qs) :
    hung ps = node [] [named n (hung qs)] ::
      (parts (least ps) ps).map fun p => named p.1 (hung p.2) := by
  rw [hung, List.attach_map_val (f := fun p : Text × List (Nat × Text) => named p.1 (hung p.2))]
  split <;> simp_all

-- Lines that show items, with empty lines between them. An item stands as far to the right as it is
-- deeper than the margin.
inductive Ladder (step margin : Nat) : List Text → List (Nat × Text) → Prop
  | nil  : Ladder step margin [] []
  | gap  : Ladder step margin ls ps → Ladder step margin ([] :: ls) ps
  | rung : margin ≤ k → Plain n → Ladder step margin ls ps →
      Ladder step margin (dash step (k - margin) n :: ls) ((k, n) :: ps)

variable {step margin k m : Nat} {l n x : Text} {ls ks g : List Text} {gs : List (List Text)}
  {ps qs : List (Nat × Text)} {p : Text × List (Nat × Text)}

theorem least_spec (hn : ps ≠ []) : (∃ n, (least ps, n) ∈ ps) ∧ ∀ p ∈ ps, least ps ≤ p.1 := by
  cases h : (ps.map (·.1)).min?
  case none => simp_all
  case some m =>
    have ⟨hm, hle⟩ := List.min?_eq_some_iff.mp h
    have ⟨⟨_, n⟩, hp, he⟩ := List.mem_map.mp hm
    rw [least, h, Option.getD_some]
    exact ⟨⟨n, he ▸ hp⟩, fun p hp => hle _ (List.mem_map_of_mem hp)⟩

theorem marginOf_dashLines (hp : (m, n) ∈ ps) (hm : ∀ p ∈ ps, m ≤ p.1) :
    marginOf (dashLines step ps) = spaces (step * m) := by
  have h₀ : (0, n) ∈ raised m ps := List.mem_map.mpr ⟨(m, n), hp, by rw [Nat.sub_self]⟩
  have hd : dash step 0 n ∈ dashLines step (raised m ps) := List.mem_map_of_mem h₀
  have ht : (dash step 0 n).takeWhile isIndent = [] := by simp [dash, spaces, isIndent]
  have h : marginOf (dashLines step (raised m ps)) = [] :=
    List.prefix_nil.mp (ht ▸ marginOf_prefix_takeWhile hd)
  rw [dashLines_eq_map hm, marginOf_map_append (fun _ => isIndent_of_mem_spaces)
    (List.ne_nil_of_mem hd), h, List.append_nil]

theorem ofOutline_trim (x : Text) : ofOutline (trim x) = ofOutline x := by
  apply ofOutline_congr
  rw [Outline.core, Outline.core, trim_trim]

namespace Ladder

theorem of_dashLines (hm : ∀ p ∈ ps, margin ≤ p.1) (hp : ∀ p ∈ ps, Plain p.2) :
    Ladder step margin (dashLines step (raised margin ps)) ps := by
  induction ps
  case nil => exact .nil
  case cons p ps ih =>
    have ⟨hm, hms⟩ := List.forall_mem_cons.mp hm
    have ⟨hp, hps⟩ := List.forall_mem_cons.mp hp
    exact .rung hm hp (ih hms hps)

theorem append (h : Ladder step margin ls ps) (h' : Ladder step margin ks qs) :
    Ladder step margin (ls ++ ks) (ps ++ qs) := by
  induction h
  case nil             => exact h'
  case gap ih          => exact .gap ih
  case rung hm hn _ ih => exact .rung hm hn ih

theorem oneLine (h : Ladder step margin ls ps) : ∀ l ∈ ls, '\n' ∉ l := by
  induction h
  case nil             => exact List.forall_mem_nil _
  case gap ih          => exact List.forall_mem_cons.mpr ⟨List.not_mem_nil, ih⟩
  case rung hm hn _ ih => exact List.forall_mem_cons.mpr ⟨(tidy_dash _ _ hn.toTidy).oneLine, ih⟩

theorem margin_le (h : Ladder step margin ls ps) : ∀ p ∈ ps, margin ≤ p.1 := by
  induction h
  case nil             => exact List.forall_mem_nil _
  case gap ih          => exact ih
  case rung hm hn _ ih => exact List.forall_mem_cons.mpr ⟨hm, ih⟩

theorem map_emptied (h : Ladder step margin ls ps) : ls.map emptied = ls := by
  induction h
  case nil => rfl
  case gap ih => rw [List.map_cons, ih]; rfl
  case rung hm hn _ ih =>
    rw [List.map_cons, ih, emptied_of_not_blank (not_blank_dash _ _ _)]

theorem filter_ne_nil (h : Ladder step margin ls ps) :
    ls.filter (· ≠ []) = dashLines step (raised margin ps) := by
  induction h
  case nil => rfl
  case gap ih => exact ih
  case rung k n ls ps hm hn _ ih =>
    have hd := ne_nil_of_not_blank (not_blank_dash step (k - margin) n)
    rw [List.filter_cons_of_pos (p := (· ≠ [])) (decide_eq_true hd), ih]
    rfl

-- The same items from a margin that is further to the right.
theorem dropStart (h : Ladder step margin ls ps) (hm : margin ≤ m) (hp : ∀ p ∈ ps, m ≤ p.1) :
    Ladder step m (ls.map (dropStart (spaces (step * (m - margin))))) ps := by
  induction h
  case nil => exact .nil
  case gap ih => simpa using .gap (ih hp)
  case rung k n ls ps hk hn _ ih =>
    have ⟨hmk, hp⟩ := List.forall_mem_cons.mp hp
    have hd : k - margin = (m - margin) + (k - m) := by simp only at hmk; omega
    rw [List.map_cons, hd, dash_add, dropStart_append]
    exact .rung hmk hn (ih hp)

theorem gaps (h : Ladder step margin ls []) (m : Nat) : Ladder step m ls [] := by
  generalize hq : [] = qs at h
  induction h
  case nil    => exact .nil
  case gap ih => exact .gap (ih hq)
  case rung   => contradiction

-- Without their margin the lines stand as far to the right as their items are deeper than the least
-- level.
theorem dedent (h : Ladder step margin ls ps) : Ladder step (least ps) (dedentLines ls) ps := by
  by_cases hn : ps = []
  case pos =>
    subst hn
    have hd : dedentLines ls = ls := by
      rw [dedentLines_eq, h.map_emptied, h.filter_ne_nil]
      exact .trans (List.map_congr_left fun l _ => dropStart_nil l) (List.map_id ls)
    rw [hd]
    exact h.gaps _
  case neg =>
    have ⟨⟨n, hp⟩, hm⟩ := least_spec hn
    have hr : (least ps - margin, n) ∈ raised margin ps := List.mem_map.mpr ⟨_, hp, rfl⟩
    have hl : ∀ p ∈ raised margin ps, least ps - margin ≤ p.1 :=
      List.forall_mem_map.mpr fun p hp => Nat.sub_le_sub_right (hm p hp) margin
    rw [dedentLines_eq, h.map_emptied, h.filter_ne_nil, marginOf_dashLines hr hl]
    exact h.dropStart (h.margin_le _ hp) hm

-- The lines of an item without the mark, with the lines of the deeper items that follow it.
def Part (step margin : Nat) (g : List Text) (p : Text × List (Nat × Text)) : Prop :=
  ∃ ls, g = p.1 :: ls ∧ Plain p.1 ∧ Ladder step margin ls p.2

-- The lines are cut in front of the items at the margin.
theorem groups (hs : 1 ≤ step) (h : Ladder step margin ls ps) :
    ∃ g gs, Outline.groups ls = g :: gs ∧ Ladder step margin g (before margin ps) ∧
      List.Forall₂ (Part step margin) gs (parts margin ps) := by
  induction h
  case nil => exact ⟨[], [], rfl, .nil, .nil⟩
  case gap ih =>
    obtain ⟨g, gs, he, hg, hp⟩ := ih
    exact ⟨[] :: g, gs, by rw [Outline.groups, he]; rfl, .gap hg, hp⟩
  case rung k n ls ps hm hn _ ih =>
    obtain ⟨g, gs, he, hg, hp⟩ := ih
    by_cases hk : margin < k
    case pos =>
      obtain ⟨j, hj⟩ := Nat.exists_eq_add_of_lt hk
      have hd : k - margin = j + 1 := by omega
      have hi : Outline.item? (dash step (k - margin) n) = none := by
        rw [hd, dash_succ, item?_spaces_append hs]
      refine ⟨dash step (k - margin) n :: g, gs, by rw [Outline.groups, hi, he]; rfl, ?_, ?_⟩
      · rw [before, List.takeWhile_cons_of_pos (by simpa using hk)]
        exact .rung hm hn hg
      · rwa [parts, if_pos hk]
    case neg =>
      have hd : k - margin = 0 := Nat.sub_eq_zero_of_le (Nat.le_of_not_lt hk)
      have hi : Outline.item? (dash step (k - margin) n) = some n := by rw [hd, item?_dash step hn]
      refine ⟨[], (n :: g) :: gs, by rw [Outline.groups, hi, he]; rfl, ?_, ?_⟩
      · rw [before, List.takeWhile_cons_of_neg (by simpa using hk)]
        exact .nil
      · rw [parts, if_neg hk]
        exact .cons ⟨g, rfl, hn, hg⟩ hp

-- The text begins with the first item, up to white space.
theorem exists_first (h : Ladder step margin ls ((k, n) :: ps)) :
    ∃ x ks, blank x ∧ joinLines ls = x ++ joinLines (dash step 0 n :: ks) ∧
      Plain n ∧ Ladder step margin ks ps := by
  generalize hq : (k, n) :: ps = qs at h
  induction h
  case nil => contradiction
  case gap ls qs h ih =>
    have ⟨x, ks, hx, he, hk⟩ := ih hq
    have hn : ls ≠ [] := by
      rintro rfl
      cases h
      contradiction
    refine ⟨'\n' :: x, ks, hx, ?_, hk⟩
    rw [joinLines_cons [] hn, he]
    rfl
  case rung j m ls qs _ hn h _ =>
    cases hq
    refine ⟨spaces (step * (k - margin)), ls, by simp [blank, spaces, isBlank], ?_, hn, h⟩
    rw [joinLines_cons_eq, joinLines_cons_eq, ← Nat.add_zero (k - margin), dash_add,
      List.append_assoc]
    rfl

theorem exists_append_gaps (h : Ladder step margin ls ps) :
    ∃ ks j, ls = ks ++ List.replicate j [] ∧ Ladder step margin ks ps ∧
      ∀ l ∈ ks.getLast?, Tidy l := by
  induction h
  case nil => exact ⟨[], 0, rfl, .nil, by simp⟩
  case gap ih =>
    have ⟨ks, j, he, hk, ht⟩ := ih
    cases ks
    case nil       => exact ⟨[], j + 1, by rw [he]; rfl, hk, ht⟩
    case cons k ks => exact ⟨[] :: k :: ks, j, by rw [he]; rfl, .gap hk, ht⟩
  case rung k n ls ps hm hn _ ih =>
    have ⟨ks, j, he, hk, ht⟩ := ih
    refine ⟨dash step (k - margin) n :: ks, j, by rw [he]; rfl, .rung hm hn hk, ?_⟩
    cases ks
    case nil       => simpa using tidy_dash step (k - margin) hn.toTidy
    case cons k ks => rwa [List.getLast?_cons_cons]

theorem takeWhile (h : Ladder step margin ls ps) :
    ∀ l ∈ ls.takeWhile (!Outline.opensItem ·), l = [] := by
  induction h
  case nil => exact List.forall_mem_nil _
  case gap ih =>
    rw [List.takeWhile_cons_of_pos (by decide)]
    exact List.forall_mem_cons.mpr ⟨rfl, ih⟩
  case rung => simp [opensItem_dash]

theorem dropWhile (h : Ladder step margin ls ps) :
    Ladder step margin (ls.dropWhile (!Outline.opensItem ·)) ps := by
  induction h
  case nil              => exact .nil
  case gap ih           => rwa [List.dropWhile_cons_of_pos (by decide)]
  case rung hm hn h _ => simpa [opensItem_dash] using .rung hm hn h

end Ladder

theorem joinLines_append_gaps (ls : List Text) (hn : ls ≠ []) (j : Nat) :
    joinLines (ls ++ List.replicate j []) = joinLines ls ++ List.replicate j '\n' := by
  have ⟨l, ls, he⟩ := List.exists_cons_of_ne_nil hn
  have hj : (List.replicate j []).flatMap ('\n' :: ·) = List.replicate j '\n' := by
    induction j <;> simp_all [List.replicate_succ]
  rw [he, List.cons_append, joinLines_cons_eq, joinLines_cons_eq, List.flatMap_append, hj,
    List.append_assoc]

-- Behind a first line empty lines at the end make no difference.
theorem Ladder.read?_cons (h : Ladder step margin ls ps) (hl : Tidy l)
    (hh : ∀ c ∈ l.head?, isBlank c = false) :
    ∃ ks, Ladder step margin ks ps ∧ Outline.read? (joinLines (l :: ls)) =
      some ⟨Outline.headerOf (l :: ks), Outline.itemsOf (l :: ks)⟩ := by
  have ⟨ks, j, he, hk, ht⟩ := h.exists_append_gaps
  refine ⟨ks, hk, ?_⟩
  rw [he, ← List.cons_append, joinLines_append_gaps _ (List.cons_ne_nil l ks)]
  apply read?_lines hh hl.nonempty
  case ho => exact List.forall_mem_cons.mpr ⟨hl.oneLine, hk.oneLine⟩
  case hx => simp [blank, isBlank]
  case ht =>
    cases ks
    case nil       => simpa using hl
    case cons k ks => rwa [List.getLast?_cons_cons]

theorem ofOutline_of_read? {xs : List Text} (h : Outline.read? x = some ⟨n, xs⟩) :
    ofOutline x = named n (xs.map ofOutline) := by
  rw [ofOutline_eq, h]
  cases xs <;> rfl

theorem Ladder.ofOutline_cons (h : Ladder step margin ls ps) (hn : Plain n) :
    ∃ ks, Ladder step margin ks ps ∧
      ofOutline (joinLines (n :: ls)) = named n ((itemTexts (dedentLines ks)).map ofOutline) := by
  have ⟨ks, hk, he⟩ := h.read?_cons hn.toTidy hn.head
  have ho : !Outline.opensItem n := by simp [hn.not_opensItem]
  have hb : blank ((ks.takeWhile (!Outline.opensItem ·)).flatMap ('\n' :: ·)) := by
    simp only [blank, List.all_flatMap, List.all_eq_true]
    intro l hl c hc
    rw [hk.takeWhile l hl, List.mem_singleton] at hc
    exact hc ▸ rfl
  have ht : trim n = n := trimBy_eq_self hn.head fun c hc => (hn.last c hc).left
  have hh : Outline.headerOf (n :: ks) = n := by
    rw [Outline.headerOf, List.takeWhile_cons_of_pos (p := (!Outline.opensItem ·)) ho,
      joinLines_cons_eq, trim_append _ hb, ht]
  refine ⟨_, hk.dropWhile, ?_⟩
  rw [ofOutline_of_read? he, hh, Outline.itemsOf,
    List.dropWhile_cons_of_pos (p := (!Outline.opensItem ·)) ho]
  rfl

-- Without a name in front of them, the first item is moved to the margin.
theorem Ladder.ofOutline_lines (h : Ladder step margin ls ((k, n) :: ps)) :
    ∃ ks, Ladder step margin ks ((margin, n) :: ps) ∧
      ofOutline (joinLines ls) = named [] ((itemTexts (dedentLines ks)).map ofOutline) := by
  obtain ⟨x, ks, hx, he, hn, hk⟩ := h.exists_first
  have hd : ∀ {ks}, Ladder step margin ks ps →
      Ladder step margin (dash step 0 n :: ks) ((margin, n) :: ps) := fun hk =>
    Nat.sub_self margin ▸ Ladder.rung (Nat.le_refl margin) hn hk
  have hh : ∀ c ∈ (dash step 0 n).head?, isBlank c = false := by simp [dash, spaces, isBlank]
  obtain ⟨ks, hk, hr⟩ := hk.read?_cons (tidy_dash step 0 hn.toTidy) hh
  have ho := opensItem_dash step 0 n
  refine ⟨_, hd hk, ?_⟩
  rw [← ofOutline_trim, he, trim_append_left hx, ofOutline_trim, ofOutline_of_read? hr,
    Outline.headerOf, Outline.itemsOf]
  simp only [List.takeWhile_cons, List.dropWhile_cons, ho]
  rfl

-- What is read from lines behind a name.
def Reads (step : Nat) (ps : List (Nat × Text)) : Prop :=
  ∀ margin n ls, Plain n → Ladder step margin ls ps →
    ofOutline (joinLines (n :: ls)) = named n (hung ps)

theorem Ladder.blank_iff (h : Ladder step margin ls ps) : blank (joinLines ls) ↔ ps = [] := by
  rw [blank_joinLines]
  induction h
  case nil    => simp
  case gap ih => exact ih
  case rung   => simp [not_blank_dash]

theorem map_ofOutline_parts {bs : List (Text × List (Nat × Text))}
    (h : List.Forall₂ (Ladder.Part step margin) gs bs) (ih : ∀ p ∈ bs, Reads step p.2) :
    ((gs.map fun g => trim (joinLines g)).filter (· ≠ [])).map ofOutline =
      bs.map fun p => named p.1 (hung p.2) := by
  induction h
  case nil => rfl
  case cons g p gs bs hg _ ihs =>
    have ⟨hp, hps⟩ := List.forall_mem_cons.mp ih
    have ⟨ls, he, hn, hl⟩ := hg
    have hb : blank (joinLines g) = false := by simp [he, blank_joinLines, hn.not_blank]
    rw [List.map_cons, List.filter_cons_of_pos (p := (· ≠ [])) (decide_eq_true (trim_ne_nil hb)),
      List.map_cons, ofOutline_trim, ihs hps, he, hp margin p.1 ls hn hl]
    rfl

-- The trees of the items at the margin, behind the tree of what precedes them.
theorem Ladder.map_ofOutline_itemTexts (hs : 1 ≤ step) (h : Ladder step margin ls ps)
    (ih : ∀ p ∈ parts margin ps, Reads step p.2) :
    ∃ g, Ladder step margin g (before margin ps) ∧ (itemTexts ls).map ofOutline =
      (if before margin ps = [] then [] else [ofOutline (joinLines g)]) ++
        (parts margin ps).map fun p => named p.1 (hung p.2) := by
  have ⟨g, gs, he, hg, hp⟩ := h.groups hs
  refine ⟨g, hg, ?_⟩
  rw [itemTexts, he, List.map_cons, ← map_ofOutline_parts hp ih]
  by_cases hb : before margin ps = []
  case pos =>
    have ht := trim_of_blank (hg.blank_iff.mpr hb)
    simp [hb, ht]
  case neg =>
    have ht := trim_ne_nil (Bool.not_eq_true _ ▸ hg.blank_iff.not.mpr hb)
    simp [hb, ht, ofOutline_trim]

theorem least_margin (hm : ∀ p ∈ ps, margin ≤ p.1) : least ((margin, n) :: ps) = margin := by
  have ⟨⟨x, hl⟩, h⟩ := least_spec (List.cons_ne_nil (margin, n) ps)
  have hm : ∀ p ∈ (margin, n) :: ps, margin ≤ p.1 :=
    List.forall_mem_cons.mpr ⟨Nat.le_refl margin, hm⟩
  exact Nat.le_antisymm (h _ List.mem_cons_self) (hm _ hl)

theorem before_margin (margin : Nat) (n : Text) (ps : List (Nat × Text)) :
    before margin ((margin, n) :: ps) = [] :=
  List.takeWhile_cons_of_neg (by simp)

theorem parts_margin (margin : Nat) (n : Text) (ps : List (Nat × Text)) :
    parts margin ((margin, n) :: ps) = (n, before margin ps) :: parts margin ps :=
  if_neg (Nat.lt_irrefl margin)

theorem before_of_deeper (hm : ∀ p ∈ ps, margin < p.1) : before margin ps = ps :=
  List.takeWhile_eq_self_iff.mpr fun p hp => decide_eq_true (hm p hp)

theorem parts_of_deeper (hm : ∀ p ∈ ps, margin < p.1) : parts margin ps = [] := by
  induction ps
  case nil => rfl
  case cons p ps ih =>
    have ⟨hp, hps⟩ := List.forall_mem_cons.mp hm
    rw [parts, if_pos hp, ih hps]

theorem deeper_of_mem_before {q : Nat × Text} (hq : q ∈ before margin ps) : margin < q.1 :=
  of_decide_eq_true (List.mem_takeWhile_imp (p := fun q : Nat × Text => decide (margin < q.1)) hq)

theorem Ladder.ofOutline_outlined (hs : 1 ≤ step) (h : Ladder step margin ls ((k, n) :: ps))
    (ih : ∀ p ∈ parts margin ((margin, n) :: ps), Reads step p.2) :
    ofOutline (joinLines ls) = outlined margin ((k, n) :: ps) := by
  have ⟨ks, hk, he⟩ := h.ofOutline_lines
  have hd := hk.dedent
  rw [least_margin (List.forall_mem_cons.mp hk.margin_le).right] at hd
  have ⟨g, _, hi⟩ := hd.map_ofOutline_itemTexts hs ih
  rw [he, hi, if_pos (before_margin margin n ps), List.nil_append, outlined, parts_margin]
  rfl

-- The lines behind a name are read by levels: at every step the items at the least level are cut
-- apart, and what precedes them makes an outline of its own.
theorem reads (hs : 1 ≤ step) (ps : List (Nat × Text)) : Reads step ps := by
  induction ps using hung.induct
  case case1 ps ihf ihp =>
    intro margin n ls hn h
    have ⟨ks, hk, he⟩ := h.ofOutline_cons hn
    have ⟨g, hg, hi⟩ := hk.dedent.map_ofOutline_itemTexts hs fun p hp => ihp ⟨p, hp⟩
    rw [he, hi]
    cases hb : before (least ps) ps
    case nil => rw [hung_of_before_eq_nil hb]; rfl
    case cons q qs =>
      have hq : ∀ p ∈ qs, least ps < p.1 := fun p hp =>
        deeper_of_mem_before (hb ▸ List.mem_cons_of_mem q hp)
      have hp : parts (least ps) ((least ps, q.2) :: qs) = [(q.2, qs)] := by
        rw [parts_margin, before_of_deeper hq, parts_of_deeper hq]
      rw [hb] at hg
      have ho := hg.ofOutline_outlined hs (hp ▸ List.forall_mem_singleton.mpr (ihf _ _ _ hb))
      rw [if_neg (List.cons_ne_nil q qs), ho, outlined, hp, hung_of_before_eq_cons hb]
      rfl

theorem ofOutline_ladder (hs : 1 ≤ step) (h : Ladder step margin ls ps) (hn : ps ≠ []) :
    ofOutline (joinLines ls) = outlined margin ps := by
  cases ps
  case nil       => contradiction
  case cons p ps => exact h.ofOutline_outlined hs fun p _ => reads hs p.2

end DocPress.Tree
