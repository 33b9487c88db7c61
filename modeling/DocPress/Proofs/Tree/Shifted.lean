import DocPress.Proofs.Tree.DrawnRows
import DocPress.Proofs.Tree.Moved

-- Lists that are shifted to the right. Below a header the items are read as before, but a text that
-- begins with an item keeps it at the margin while all others are moved below it.

namespace DocPress

open Text

namespace Outline

-- Every line that opens an item has something behind its dash.
def Filled (ls : List Text) : Prop :=
  ∀ l ∈ ls, startsWith (trimStart l) ['-', ' '] → content l ≠ []

instance (ls : List Text) : Decidable (Filled ls) :=
  List.decidableBAll (fun l => startsWith (trimStart l) ['-', ' '] → content l ≠ []) ls

variable {n : Nat} {k l m r x y : Text} {g ks ls : List Text} {gs : List (List Text)}

theorem read?_of_core (h : core x = joinLines (m :: ls)) (hn : m ≠ [])
    (hf : ∀ l ∈ m :: ls, '\n' ∉ l) :
    read? x = some ⟨headerOf (m :: ls), itemsOf (m :: ls)⟩ := by
  have hs := splitLines_joinLines hf (List.cons_ne_nil m ls)
  rw [read?, h, if_neg (joinLines_ne_nil hn), hs]

theorem read?_of_core_eq_nil (h : core x = []) : read? x = none :=
  if_pos h

theorem opensItem_of_blank (h : blank l) : opensItem l = false := by
  by_contra ho
  have ho : opensItem l := by simpa using ho
  have hp : '-' ∈ l.dropWhile (· = ' ') :=
    (List.isPrefixOf_iff_prefix.mp ho).mem List.mem_cons_self
  have hb := List.all_eq_true.mp h '-' ((List.dropWhile_sublist _).mem hp)
  contradiction

-- Neither indentation nor what is on a blank line decides whether a line opens an item.

theorem opensItem_emptied (l : Text) : opensItem (emptied l) = opensItem l := by
  cases hl : blank l
  case false => rw [emptied_of_not_blank hl]
  case true =>
    rw [opensItem_of_blank hl, emptied_of_blank hl]
    rfl

theorem opensItem_indented (n : Nat) (l : Text) :
    opensItem (indented (spaces n) l) = opensItem l := by
  rw [indented]
  split
  case isTrue => rfl
  case isFalse =>
    rw [opensItem, List.dropWhile_append_of_pos (by simp [spaces]), opensItem]

theorem takeWhile_map_of_opensItem {f : Text → Text} (h : ∀ l, opensItem (f l) = opensItem l)
    (ls : List Text) :
    (ls.map f).takeWhile (!opensItem ·) = (ls.takeWhile (!opensItem ·)).map f := by
  rw [List.takeWhile_map]
  simp only [Function.comp_def, h]

theorem dropWhile_map_of_opensItem {f : Text → Text} (h : ∀ l, opensItem (f l) = opensItem l)
    (ls : List Text) :
    (ls.map f).dropWhile (!opensItem ·) = (ls.dropWhile (!opensItem ·)).map f := by
  rw [List.dropWhile_map]
  simp only [Function.comp_def, h]

theorem words_headerOf (ls : List Text) :
    words (headerOf ls) = (ls.takeWhile (!opensItem ·)).flatMap words := by
  rw [headerOf, words_trim, words_joinLines]

theorem flatMap_words_emptied (ls : List Text) :
    (ls.map emptied).flatMap words = ls.flatMap words := by
  simp only [List.flatMap_map, words_emptied]

namespace Moved

theorem ne_nil (h : Moved n x y m ls ks) : m ≠ [] := by
  have ⟨c, hc, _⟩ := h.head
  rintro rfl
  contradiction

theorem not_blank (h : Moved n x y m ls ks) : blank m = false :=
  have ⟨_, hc, hb⟩ := h.head
  not_blank_of_head hc hb

theorem read?_left (h : Moved n x y m ls ks) :
    read? x = some ⟨headerOf (m :: ls), itemsOf (m :: ls)⟩ := by
  have ⟨hm, hl⟩ := List.forall_mem_cons.mp h.oneLine
  exact read?_of_core h.left h.ne_nil
    (List.forall_mem_cons.mpr ⟨hm, (List.forall_mem_append.mp hl).left⟩)

theorem read?_right (h : Moved n x y m ls ks) :
    read? y = some ⟨headerOf (m :: ks), itemsOf (m :: ks)⟩ := by
  have ⟨hm, hl⟩ := List.forall_mem_cons.mp h.oneLine
  exact read?_of_core h.right h.ne_nil
    (List.forall_mem_cons.mpr ⟨hm, (List.forall_mem_append.mp hl).right⟩)

-- Below a header nothing changes but white space.

theorem words_header (h : Moved n x y m ls ks) (ho : opensItem m = false) :
    words (headerOf (m :: ks)) = words (headerOf (m :: ls)) ∧ words (headerOf (m :: ls)) ≠ [] := by
  have hm : ∀ ls, words (headerOf (m :: ls)) =
      words m ++ (ls.takeWhile (!opensItem ·)).flatMap words := fun ls => by
    rw [words_headerOf, List.takeWhile_cons_of_pos (by simp [ho]), List.flatMap_cons]
  have hk := congrArg (List.takeWhile (!opensItem ·)) h.moved
  simp only [takeWhile_map_of_opensItem opensItem_emptied,
    takeWhile_map_of_opensItem (opensItem_indented n)] at hk
  have hw := congrArg (List.flatMap words) hk
  rw [flatMap_words_emptied, flatMap_words_emptied, List.flatMap_map] at hw
  simp only [words_indented (blank_spaces n)] at hw
  refine ⟨by rw [hm, hm, hw], fun hn => ?_⟩
  have hb := blank_of_words_eq_nil (List.append_eq_nil_iff.mp ((hm ls).symm.trans hn)).left
  rw [h.not_blank] at hb
  contradiction

theorem itemsOf_header (h : Moved n x y m ls ks) (ho : opensItem m = false) :
    itemsOf (m :: ks) = itemsOf (m :: ls) := by
  have hk := congrArg (List.dropWhile (!opensItem ·)) h.moved
  simp only [dropWhile_map_of_opensItem opensItem_emptied,
    dropWhile_map_of_opensItem (opensItem_indented n)] at hk
  have hd := (dedentLines_congr hk).trans
    (dedentLines_map_indented (fun _ => isIndent_of_mem_spaces) _)
  rw [itemsOf, itemsOf, List.dropWhile_cons_of_pos (by simp [ho]),
    List.dropWhile_cons_of_pos (by simp [ho]), hd]

end Moved

-- A text that begins with an item.

theorem item?_eq_some (h : item? l = some r) : ∃ z, l = '-' :: ' ' :: z := by
  unfold item? at h
  split at h
  case h_1 z => exact ⟨z, rfl⟩
  case h_2   => contradiction

theorem item?_of_blank (h : blank l) : item? l = none := by
  cases hi : item? l
  case none => rfl
  case some r =>
    obtain ⟨z, rfl⟩ := item?_eq_some hi
    have hb := List.all_eq_true.mp h '-' List.mem_cons_self
    contradiction

theorem item?_emptied (l : Text) : item? (emptied l) = item? l := by
  rw [emptied]
  split
  case isTrue hl => rw [item?_of_blank hl]; rfl
  case isFalse   => rfl

theorem Begins.item?_eq_none (h : Begins l k) (hk : item? k = none) : item? l = none := by
  cases hi : item? l
  case none => rfl
  case some r =>
    obtain ⟨z, rfl⟩ := item?_eq_some hi
    have ⟨u, hu⟩ := h.front
    rw [← hu] at hk
    contradiction

theorem not_blank_of_content (h : content l ≠ []) : blank l = false := by
  by_contra hb
  have hb : blank l := by simpa using hb
  exact h (content_eq_nil fun c hc => .inl (List.all_eq_true.mp hb c hc))

theorem Begins.trimStart_eq (h : Begins ('-' :: l) k) : trimStart k = k := by
  have ⟨u, hu⟩ := h.front
  rw [← hu]
  rfl

theorem content_trimStart (l : Text) : content (trimStart l) = content l :=
  content_dropWhile (fun _ => .inl) l

theorem content_of_filled (h : Filled ls) (hk : k ∈ ls)
    (hb : Begins ('-' :: ' ' :: r) (trimStart k)) : content ('-' :: ' ' :: r) ≠ [] := by
  have hs : ['-', ' '] <+: '-' :: ' ' :: r := ⟨r, rfl⟩
  have hc := h k hk (List.isPrefixOf_iff_prefix.mpr (hs.trans hb.front))
  rwa [hb.rest, content_trimStart]

-- What begins the lines of such a text is filled as well.
theorem content_of_begins_filled (h : Filled ks) (hls : ∀ l ∈ ls, ∃ k ∈ ks, Begins l k) :
    ∀ l ∈ ls, (item? l).isSome → content l ≠ [] := by
  intro l hl hi
  have ⟨r, hr⟩ := Option.isSome_iff_exists.mp hi
  obtain ⟨z, rfl⟩ := item?_eq_some hr
  have ⟨k, hk, hb⟩ := hls _ hl
  exact content_of_filled h hk (hb.trimStart_eq.symm ▸ hb)

-- Where lines are moved, none of them stands at the margin any more.
theorem item?_indented (h : 1 ≤ n ∨ item? l = none) : item? (indented (spaces n) l) = none := by
  rw [indented]
  split
  case isTrue hl => exact item?_of_blank hl
  case isFalse =>
    cases n
    case zero   => exact h.resolve_left (by decide)
    case succ n => rfl

theorem groups_of_none (h : ∀ l ∈ ls, item? l = none) : groups ls = [ls] := by
  have hg := Tree.groups_append h []
  rw [List.append_nil] at hg
  rw [hg]
  show [ls ++ []] = _
  rw [List.append_nil]

theorem headerOf_item (r : Text) (ls : List Text) : headerOf (('-' :: ' ' :: r) :: ls) = [] := by
  rw [headerOf, List.takeWhile_cons_of_neg (by simp [opensItem, startsWith])]
  rfl

-- The first item takes what stands in front of the next one.
theorem itemsOf_item (r : Text) (hg : groups (ls.map emptied) = g :: gs) :
    itemsOf (('-' :: ' ' :: r) :: ls) =
      (((r.dropWhile (· = ' ') :: g) :: gs).map fun g => trim (joinLines g)).filter (· ≠ []) := by
  have hd : dedentLines (('-' :: ' ' :: r) :: ls) = ('-' :: ' ' :: r) :: ls.map emptied :=
    dedentLines_cons ls (by simp [blank, isBlank]) rfl
  have hm : groups (('-' :: ' ' :: r) :: ls.map emptied) =
      [] :: (groups (ls.map emptied)).modifyHead (r.dropWhile (· = ' ') :: ·) := rfl
  rw [itemsOf, List.dropWhile_cons_of_neg (by simp [opensItem, startsWith]), hd, hm, hg,
    List.modifyHead_cons, List.map_cons]
  exact List.filter_cons_of_neg (by simp [joinLines, trim, trimBy])

theorem length_groups (ls : List Text) :
    (groups ls).length = ls.countP (fun l => (item? l).isSome) + 1 := by
  induction ls
  case nil => rfl
  case cons l ls ih =>
    rw [groups, List.countP_cons]
    cases item? l <;> simp [ih]

-- Every group but the first one begins with the rest of an item.
theorem content_of_mem_groups (h : ∀ l ∈ ls, (item? l).isSome → content l ≠ []) :
    ∀ g ∈ (groups ls).tail, g.flatMap content ≠ [] := by
  induction ls
  case nil => simp [groups]
  case cons l ls ih =>
    obtain ⟨hl, hls⟩ := List.forall_mem_cons.mp h
    obtain ⟨g, gs, hg⟩ := List.exists_cons_of_ne_nil (groups_ne_nil ls)
    have ih := ih hls
    rw [groups, hg] at *
    cases hi : item? l
    case none => exact ih
    case some r =>
      refine List.forall_mem_cons.mpr ⟨fun hn => ?_, ih⟩
      rw [List.flatMap_cons, content_item? hi] at hn
      exact hl (by simp [hi]) (List.append_eq_nil_iff.mp hn).left

theorem trim_joinLines_ne_nil (h : ls.flatMap content ≠ []) : trim (joinLines ls) ≠ [] := by
  intro hn
  rw [← content_joinLines, ← content_trim, hn] at h
  exact h rfl

theorem content_rest (hr : content r ≠ []) (ls : List Text) :
    (r.dropWhile (· = ' ') :: ls).flatMap content ≠ [] := by
  rw [List.flatMap_cons, content_dropSpaces]
  simp [hr]

-- Items that have something behind their dashes are not lost.
theorem length_itemsOf_item (hr : content r ≠ [])
    (hl : ∀ l ∈ ls, (item? l).isSome → content l ≠ []) :
    (itemsOf (('-' :: ' ' :: r) :: ls)).length = ls.countP (fun l => (item? l).isSome) + 1 := by
  have ⟨g, gs, hg⟩ := List.exists_cons_of_ne_nil (groups_ne_nil (ls.map emptied))
  have hn := length_groups (ls.map emptied)
  have he : ∀ l ∈ ls.map emptied, (item? l).isSome → content l ≠ [] := by
    simp only [List.forall_mem_map, item?_emptied, content_emptied]
    exact hl
  have ht := content_of_mem_groups he
  rw [hg] at hn ht
  have hk : ∀ k ∈ ((r.dropWhile (· = ' ') :: g) :: gs).map fun g => trim (joinLines g),
      decide (k ≠ []) := by
    refine List.forall_mem_map.mpr fun g hm => decide_eq_true (trim_joinLines_ne_nil ?_)
    cases hm
    case head    => exact content_rest hr g
    case tail hm => exact ht g hm
  rw [itemsOf_item r hg, List.filter_eq_self.mpr hk, List.length_map]
  refine hn.trans ?_
  rw [List.countP_map]
  simp only [Function.comp_def, item?_emptied]

-- Without another item at the margin, the first one takes all lines.
theorem groups_emptied_of_none (hl : ∀ l ∈ ls, item? l = none) :
    groups (ls.map emptied) = [ls.map emptied] :=
  groups_of_none (List.forall_mem_map.mpr fun l h => (item?_emptied l).trans (hl l h))

theorem itemsOf_of_none (hr : content r ≠ []) (hl : ∀ l ∈ ls, item? l = none) :
    itemsOf (('-' :: ' ' :: r) :: ls) =
      [trim (joinLines (r.dropWhile (· = ' ') :: ls.map emptied))] := by
  have ht := trim_joinLines_ne_nil (content_rest hr (ls.map emptied))
  rw [itemsOf_item r (groups_emptied_of_none hl), List.map_singleton,
    List.filter_cons_of_pos (by simpa using ht), List.filter_nil]

theorem length_itemsOf_le (r : Text) (hl : ∀ l ∈ ls, item? l = none) :
    (itemsOf (('-' :: ' ' :: r) :: ls)).length ≤ 1 := by
  rw [itemsOf_item r (groups_emptied_of_none hl)]
  exact List.length_filter_le _ _

namespace Moved

theorem map_emptied (h : Moved n x y m ls ks) :
    ks.map emptied = (ls.map emptied).map (indented (spaces n)) := by
  rw [h.moved, List.map_map, List.map_map]
  exact List.map_congr_left fun l _ => emptied_indented (spaces n) l

theorem item?_eq_none (h : Moved n x y m ls ks) (hi : 1 ≤ n ∨ ∀ l ∈ ls, item? l = none) :
    ∀ k ∈ ks, item? k = none := by
  have hl : ∀ l ∈ (ls.map emptied).map (indented (spaces n)), item? l = none := by
    refine List.forall_mem_map.mpr (List.forall_mem_map.mpr fun l hl => item?_indented ?_)
    exact hi.imp_right fun hi => (item?_emptied l).trans (hi l hl)
  intro k hk
  rw [← item?_emptied]
  exact hl _ (h.map_emptied ▸ List.mem_map_of_mem hk)

theorem exists_eq_cons (h : Moved n x y m ls ks) (ho : opensItem m) : ∃ r, m = '-' :: ' ' :: r := by
  have ⟨c, hc, hb⟩ := h.head
  refine item?_isSome_of_opensItem ho fun d hd => ?_
  rw [Option.mem_def.mp hc] at hd
  exact Option.some.inj hd ▸ hb

end Moved

end Outline

namespace Tree

open Outline

variable {n : Nat} {m r x y : Text} {ks ls : List Text} {t u : Tree} {ts us : List Tree}

theorem Alike.refl (ts : List Tree) : Alike ts ts := by
  induction ts using childrenInduction
  case nil               => exact .nil
  case cons t ts ihc ihs => exact .cons rfl ihc ihs

theorem Alike.length_eq (h : Alike ts us) : ts.length = us.length := by
  induction h
  case nil            => rfl
  case cons _ _ _ ihs => rw [List.length_cons, List.length_cons, ihs]

theorem Alike.draw_eq (h : Alike [t] [u]) : t.draw = u.draw := by
  have hv := h.views_eq
  simp only [views, List.cons.injEq, and_true] at hv
  rw [draw, hv, draw]

theorem alike_children_of_draw_eq (ht : Legible [t]) (hu : Legible [u]) (h : t.draw = u.draw) :
    Alike t.children u.children := by
  have hr := congrArg lines h
  rw [lines_draw ht, lines_draw hu] at hr
  have hi : Function.Injective (spaces Drawing.rootSign.length ++ ·) :=
    List.append_right_injective _
  exact alike_of_rows_eq (hi.list_map (List.cons_eq_cons.mp hr).right)

theorem label_eq_of_words (h : words t.data = words u.data) (hn : words u.data ≠ []) :
    t.label = u.label := by
  have ht : t.data ≠ [] := fun hd => hn (by rw [← h, hd]; rfl)
  have hu : u.data ≠ [] := fun hd => hn (by rw [hd]; rfl)
  rw [label, if_neg ht, label, if_neg hu, oneLine, h, oneLine]

theorem alike_of_header (h : Moved n x y m ls ks) (ho : opensItem m = false) :
    Alike [ofOutline y] [ofOutline x] := by
  have ⟨hw, hn⟩ := h.words_header ho
  rw [ofOutline_of_read? h.read?_left, ofOutline_of_read? h.read?_right]
  refine .cons (label_eq_of_words ?_ ?_) ?_ .nil
  · rwa [data_named, data_named]
  · rwa [data_named]
  · rw [children_named, children_named, h.itemsOf_header ho]
    exact .refl _

theorem ofOutline_of_none (h : read? x = some ⟨headerOf (('-' :: ' ' :: r) :: ls),
      itemsOf (('-' :: ' ' :: r) :: ls)⟩) (hr : content r ≠ []) (hl : ∀ l ∈ ls, item? l = none) :
    ofOutline x = node [] [ofOutline (joinLines (r.dropWhile (· = ' ') :: ls.map emptied))] := by
  rw [ofOutline_of_read? h, headerOf_item, itemsOf_of_none hr hl, List.map_singleton,
    ofOutline_trim]
  rfl

-- A single item is shifted without loss, since all other lines are below it.
theorem alike_of_none (h : Moved n x y m ls ks) (hc : content m ≠ [])
    (hi : ∀ l ∈ ls, item? l = none) : Alike [ofOutline y] [ofOutline x] := by
  induction hm : m.length using Nat.strong_induction_on generalizing x y m ls ks
  case h k ih =>
    cases ho : opensItem m
    case false => exact alike_of_header h ho
    case true =>
      obtain ⟨r, rfl⟩ := h.exists_eq_cons ho
      have hr : content r ≠ [] := hc
      have hd : content (r.dropWhile (· = ' ')) ≠ [] := content_dropSpaces r ▸ hr
      have ⟨hf, hl⟩ := List.forall_mem_cons.mp h.oneLine
      have hf : ∀ l ∈ r.dropWhile (· = ' ') :: ls.map emptied, '\n' ∉ l := by
        refine List.forall_mem_cons.mpr ⟨fun hc => hf ?_, List.forall_mem_map.mpr fun l h hc => ?_⟩
        · exact List.mem_cons_of_mem _ (List.mem_cons_of_mem _ ((List.dropWhile_sublist _).mem hc))
        · exact hl l (List.mem_append_left ks h) ((sublist_emptied l).mem hc)
      have hs := shifts_lines n (not_blank_of_content hd) hf
      rw [ofOutline_of_none h.read?_left hr hi,
        ofOutline_of_none h.read?_right hr (h.item?_eq_none (.inr hi)), h.map_emptied]
      refine .cons rfl ?_ .nil
      rcases hs with ⟨hx, hy⟩ | ⟨m, ls', ks', hs, hb, hls⟩
      case inl =>
        rw [children, children, ofOutline_of_read?_eq_none (read?_of_core_eq_nil hx),
          ofOutline_of_read?_eq_none (read?_of_core_eq_nil hy)]
        exact .refl _
      case inr =>
        refine ih m.length ?_ hs ?_ ?_ rfl
        · have hl := hb.front.length_le
          have hd := (List.dropWhile_sublist isBlank (l := r.dropWhile (· = ' '))).length_le
          have hr := (List.dropWhile_sublist (· = ' ') (l := r)).length_le
          rw [trimStart] at hl
          rw [← hm, List.length_cons, List.length_cons]
          omega
        · rwa [hb.rest, content_trimStart]
        · intro k hk
          obtain ⟨l, hl, hb⟩ := hls k hk
          obtain ⟨j, hj, he⟩ := List.mem_map.mp hl
          exact hb.item?_eq_none (he ▸ (item?_emptied j).trans (hi j hj))

theorem data_eq_nil_iff (h : Moved n x y m ls ks) : (ofOutline x).data = [] ↔ opensItem m := by
  rw [ofOutline_of_read? h.read?_left, data_named]
  cases ho : opensItem m
  case false =>
    have ⟨_, hn⟩ := h.words_header ho
    exact ⟨fun hd => absurd (by rw [hd]; rfl) hn, fun hf => absurd hf Bool.false_ne_true⟩
  case true =>
    obtain ⟨r, rfl⟩ := h.exists_eq_cons ho
    exact iff_of_true (headerOf_item r ls) rfl

theorem length_children_left (h : Moved n x y m ls ks) :
    (ofOutline x).children.length = (itemsOf (m :: ls)).length := by
  rw [ofOutline_of_read? h.read?_left, children_named, List.length_map]

theorem length_children_right_le (h : Moved n x y m ls ks) (hn : 1 ≤ n) (ho : opensItem m) :
    (ofOutline y).children.length ≤ 1 := by
  obtain ⟨r, rfl⟩ := h.exists_eq_cons ho
  rw [ofOutline_of_read? h.read?_right, children_named, List.length_map]
  exact length_itemsOf_le r (h.item?_eq_none (.inl hn))

-- Where every item has something behind its dash, a single one is the only line at the margin.
theorem item?_eq_none_of_filled (h : Moved n x y ('-' :: ' ' :: r) ls ks) (hr : content r ≠ [])
    (hl : ∀ l ∈ ls, (item? l).isSome → content l ≠ [])
    (hc : (ofOutline x).children.length ≤ 1) : ∀ l ∈ ls, item? l = none := by
  rw [length_children_left h, length_itemsOf_item hr hl] at hc
  have hz : ls.countP (fun l => (item? l).isSome) = 0 := by omega
  intro l hm
  simpa using List.countP_eq_zero.mp hz l hm

-- A text that begins with a header is drawn as before when it is shifted to the right, but one that
-- begins with an item only if that is the only one.
theorem draw_indent_spaces (n : Nat) (x : Text) :
    let t := ofOutline x
    let u := ofOutline (indent (spaces n) x)
    (t.data ≠ [] → u.draw = t.draw) ∧
    (1 ≤ n → t.data = [] → 2 ≤ t.children.length → u.draw ≠ t.draw) ∧
    (1 ≤ n → Filled (splitLines x) →
      (u.draw = t.draw ↔ t.data ≠ [] ∨ t.children.length ≤ 1)) := by
  intro t u
  have ⟨k, hk, js, hj, hs⟩ := shifts_indent n x
  rcases hs with ⟨hx, hy⟩ | ⟨m, ls, ks, h, hb, hls⟩
  case inl =>
    have ht : t = leaf [] := ofOutline_of_read?_eq_none (read?_of_core_eq_nil hx)
    have hu : u = leaf [] := ofOutline_of_read?_eq_none (read?_of_core_eq_nil hy)
    rw [ht, hu]
    simp [children]
  case inr =>
    have hd : t.data = [] ↔ opensItem m := data_eq_nil_iff h
    have hh : t.data ≠ [] → u.draw = t.draw := fun hn =>
      (alike_of_header h (Bool.eq_false_iff.mpr (hd.not.mp hn))).draw_eq
    have hi : 1 ≤ n → t.data = [] → 2 ≤ t.children.length → u.draw ≠ t.draw := by
      intro hn ht hc he
      have ha := alike_children_of_draw_eq (legible_ofOutline _) (legible_ofOutline _) he
      have hl : u.children.length = t.children.length := ha.length_eq
      have hr : u.children.length ≤ 1 := length_children_right_le h hn (hd.mp ht)
      omega
    refine ⟨hh, hi, fun hn hf => ⟨fun he => ?_, fun hc => ?_⟩⟩
    · by_contra hc
      rw [not_or, not_not] at hc
      exact hi hn hc.left (by omega) he
    · by_cases ht : t.data = []
      case neg => exact hh ht
      case pos =>
        obtain ⟨r, rfl⟩ := h.exists_eq_cons (hd.mp ht)
        have hm := content_of_filled hf hk hb
        have hl := content_of_begins_filled hf fun l hl =>
          (hls l hl).imp fun _ => And.imp_left fun hk => hj hk
        have hz := item?_eq_none_of_filled h hm hl (hc.resolve_left (not_not.mpr ht))
        exact (alike_of_none h hm hz).draw_eq

theorem draw_indent_spaces_lists :
    let x : Text := "H\n- A\n- B"
    let y : Text := "- A\n- B"
    let z : Text := "- A\n  - B\n  - C"
    (ofOutline x).data ≠ [] ∧
      (ofOutline (indent (spaces 2) x)).draw = (ofOutline x).draw ∧
      (ofOutline y).data = [] ∧ 2 ≤ (ofOutline y).children.length ∧
      (ofOutline (indent (spaces 2) y)).draw ≠ (ofOutline y).draw ∧
      Filled (splitLines z) ∧ (ofOutline z).children.length ≤ 1 ∧
      (ofOutline (indent (spaces 2) z)).draw = (ofOutline z).draw := by
  intro x y z
  have hx : (ofOutline x).data ≠ [] := by decide +kernel
  have hy : (ofOutline y).data = [] := by decide +kernel
  have hl : 2 ≤ (ofOutline y).children.length := by decide +kernel
  have hz : (ofOutline z).children.length ≤ 1 := by decide +kernel
  have hf : Filled (splitLines z) := by decide
  have ⟨he, _, _⟩ := draw_indent_spaces 2 x
  have ⟨_, hn, _⟩ := draw_indent_spaces 2 y
  have ⟨_, _, hi⟩ := draw_indent_spaces 2 z
  have hs : 1 ≤ 2 := by decide
  exact ⟨hx, he hx, hy, hl, hn hs hy hl, hf, hz, (hi hs hf).mpr (.inr hz)⟩

-- The second item is moved below the first one.
theorem draw_indent_spaces_ne :
    let x : Text := "- A\n- B"
    indent (spaces 2) x = "  - A\n  - B".toList ∧
      (ofOutline x).draw = "• +\n  ├─ A\n  └─ B".toList ∧
      (ofOutline (indent (spaces 2) x)).draw = "• +\n  └─ A\n     └─ B".toList := by
  decide +kernel

end Tree
end DocPress
